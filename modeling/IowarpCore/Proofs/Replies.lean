/-
Answers come back to the task that asked.

A request is outstanding from when it is sent or queued until its answer has arrived or is
lost.  Two things can go wrong with it.  The key under which the receiver keeps it is made of
an address of the sender and the number of the replica, so a request of another sender can have
the same key (`Keyed` is what rules this out).  And its address may come to be that of another
task of the sender, so that the answer is taken for that one's (`Own`).

Both are ruled out when `SendIn` is given an address that is not in use in this sense, and a
queued request is not sent to where its key is taken (`Unmistakable`).
-/
import IowarpCore.Cluster.World
import IowarpCore.Proofs.Effects

namespace IowarpCore
namespace Cluster
namespace World

open NetState

variable {π : Type} {env : Env π} {w w' : World π}

/-- The request, or its answer, is on its way or on some node. -/
def Outstanding (w : World π) (t : NetTask π) : Prop :=
  t ∈ w.requests.map Prod.snd ∨ t ∈ w.replies.map Prod.snd ∨ ∃ n, (w.nodes n).Held t

/-- The node that sent the request still has its task under that address, or none. -/
def Genuine (w : World π) (t : NetTask π) : Prop :=
  ∃ n : UInt32, t.sender = n.toUInt64 ∧ t.poolQuery.retNode = n ∧
    ∀ origin, (t.netKey, origin) ∈ (w.nodes n).sendMap.entries → origin.sendId = t.sendId

/-- Every answer on its way is for the task that asked, and so was every one that arrived. -/
structure Own (w : World π) : Prop where
  nodeId : ∀ n, (w.nodes n).ipc.nodeId = n.toUInt64
  idle : ∀ n, (w.nodes n).requests = [] ∧ (w.nodes n).replies = []
  genuine : ∀ t, Outstanding w t → Genuine w t
  replies : ∀ x ∈ w.replies, x.1 = x.2.poolQuery.retNode.toUInt64
  aggregated : ∀ n, ∀ x ∈ (w.nodes n).aggregated, x.1.sender = n.toUInt64 ∧ x.1.sendId = x.2

theorem own_start (hosts : UInt32 → AMap Node Host) : Own (start hosts : World π) where
  nodeId := fun _ => rfl
  idle := fun _ => ⟨rfl, rfl⟩
  genuine := by
    intro t ht
    simp [Outstanding, start, NetState.start, Held] at ht
  replies := by simp [start]
  aggregated := by simp [start, NetState.start]

theorem Genuine.same {t t' : NetTask π} (h : Genuine w t) (hsame : SameRequest t t') :
    Genuine w t' := by
  obtain ⟨n, hsender, hret, hid⟩ := h
  refine ⟨n, by rw [hsame.sender]; exact hsender, by rw [hsame.poolQuery]; exact hret, ?_⟩
  rw [hsame.netKey, hsame.sendId]
  exact hid

section

variable {n : UInt32} {f : NetState π → NetState π} {given answer : NetTask π → Prop}

@[simp] theorem runAt_self (w : World π) :
    (w.runAt n f).nodes n = { f (w.nodes n) with requests := [], replies := [] } := by
  simp [runAt]

theorem runAt_other (w : World π) {m : UInt32} (h : m ≠ n) : (w.runAt n f).nodes m = w.nodes m := by
  simp [runAt, h]

/-- What is outstanding after a step of a node was on its way before, or is with a node. -/
theorem outstanding_runAt {t : NetTask π} (h : Outstanding (w.runAt n f) t) :
    t ∈ w.requests.map Prod.snd ∨ t ∈ w.replies.map Prod.snd ∨ (f (w.nodes n)).Held t ∨
      ∃ m, m ≠ n ∧ (w.nodes m).Held t := by
  rcases h with h | h | ⟨m, h⟩
  · have h : t ∈ (w.requests ++ (f (w.nodes n)).requests).map Prod.snd := h
    rw [List.map_append] at h
    rcases List.mem_append.mp h with h | h
    · exact Or.inl h
    · exact Or.inr (Or.inr (Or.inl (Or.inl h)))
  · have h : t ∈ (w.replies ++ (f (w.nodes n)).replies).map Prod.snd := h
    rw [List.map_append] at h
    rcases List.mem_append.mp h with h | h
    · exact Or.inr (Or.inl h)
    · exact Or.inr (Or.inr (Or.inl (Or.inr (Or.inr (Or.inr (Or.inr h))))))
  · by_cases hm : m = n
    · rw [hm, runAt_self] at h
      refine Or.inr (Or.inr (Or.inl ?_))
      rcases h with h | h | h | h | h
      · simp at h
      · exact Or.inr (Or.inl h)
      · exact Or.inr (Or.inr (Or.inl h))
      · exact Or.inr (Or.inr (Or.inr (Or.inl h)))
      · simp at h
    · rw [runAt_other w hm] at h
      exact Or.inr (Or.inr (Or.inr ⟨m, hm, h⟩))

/-- A step that starts no task: what it takes up was outstanding in `w`, and `w₁` is `w` without
some of the messages. -/
theorem own_effect {w₁ : World π} (h : Own w) (hnodes : w₁.nodes = w.nodes)
    (hrequests : ∀ x ∈ w₁.requests, x ∈ w.requests) (hreplies : ∀ x ∈ w₁.replies, x ∈ w.replies)
    (heffect : NetState.Effect (w.nodes n) (f (w.nodes n)) given answer)
    (hgiven : ∀ t, given t → Outstanding w t)
    (hanswer : ∀ t, answer t → Outstanding w t ∧ t.poolQuery.retNode = n) :
    Own (w₁.runAt n f) := by
  have hids : ∀ m key origin', (key, origin') ∈ ((w₁.runAt n f).nodes m).sendMap.entries →
      ∃ origin, (key, origin) ∈ (w.nodes m).sendMap.entries ∧ origin.sendId = origin'.sendId := by
    intro m key origin' ho
    by_cases hm : m = n
    · rw [hm, runAt_self, hnodes] at ho
      rw [hm]
      exact heffect.sendMap key origin' ho
    · rw [runAt_other w₁ hm, hnodes] at ho
      exact ⟨origin', ho, rfl⟩
  refine ⟨?_, ?_, ?_, ?_, ?_⟩
  · intro m
    by_cases hm : m = n
    · rw [hm, runAt_self, hnodes]
      exact heffect.nodeId.trans (h.nodeId n)
    · rw [runAt_other w₁ hm, hnodes]
      exact h.nodeId m
  · intro m
    by_cases hm : m = n
    · rw [hm, runAt_self]
      exact ⟨rfl, rfl⟩
    · rw [runAt_other w₁ hm, hnodes]
      exact h.idle m
  · intro t ht
    have hold : ∃ t₀, Outstanding w t₀ ∧ SameRequest t₀ t := by
      rcases outstanding_runAt ht with ht | ht | ht | ⟨m, _, ht⟩
      · obtain ⟨x, hx, rfl⟩ := List.mem_map.mp ht
        exact ⟨x.2, Or.inl (List.mem_map.mpr ⟨x, hrequests x hx, rfl⟩), .refl _⟩
      · obtain ⟨x, hx, rfl⟩ := List.mem_map.mp ht
        exact ⟨x.2, Or.inr (Or.inl (List.mem_map.mpr ⟨x, hreplies x hx, rfl⟩)), .refl _⟩
      · rw [hnodes] at ht
        obtain ⟨t₀, ht₀, hsame⟩ := heffect.held t ht
        rcases ht₀ with ht₀ | ht₀
        · exact ⟨t₀, Or.inr (Or.inr ⟨n, ht₀⟩), hsame⟩
        · exact ⟨t₀, hgiven t₀ ht₀, hsame⟩
      · rw [hnodes] at ht
        exact ⟨t, Or.inr (Or.inr ⟨m, ht⟩), .refl t⟩
    obtain ⟨t₀, ht₀, hsame⟩ := hold
    obtain ⟨m, hsender, hret, hid⟩ := (h.genuine t₀ ht₀).same hsame
    refine ⟨m, hsender, hret, ?_⟩
    intro origin' ho
    obtain ⟨origin, hmem, heq⟩ := hids m t.netKey origin' ho
    rw [← heq]
    exact hid origin hmem
  · intro x hx
    have hx : x ∈ w₁.replies ++ (f (w₁.nodes n)).replies := hx
    rcases List.mem_append.mp hx with hx | hx
    · exact h.replies x (hreplies x hx)
    · rw [hnodes] at hx
      rcases heffect.replies x hx with hx | hx
      · rw [(h.idle n).2] at hx
        exact absurd hx List.not_mem_nil
      · exact hx
  · intro m x hx
    by_cases hm : m = n
    · rw [hm, runAt_self, hnodes] at hx
      rw [hm]
      rcases heffect.aggregated x hx with hold | ⟨hans, origin, hmem, hid⟩
      · exact h.aggregated n x hold
      · obtain ⟨hout, hret⟩ := hanswer x.1 hans
        obtain ⟨m', hsender, hret', hid'⟩ := h.genuine x.1 hout
        have hm' : m' = n := hret'.symm.trans hret
        rw [hm'] at hsender hid'
        exact ⟨hsender, by rw [hid, hid' origin hmem]⟩
    · rw [runAt_other w₁ hm, hnodes] at hx
      exact h.aggregated m x hx

end

/-! ### New tasks -/

/-- No request of the node that is outstanding carries this address. -/
def FreshAddress (w : World π) (n : UInt32) (addr : UInt64) : Prop :=
  ∀ t, Outstanding w t → t.sender = n.toUInt64 → t.netKey ≠ addr

section

variable {n : UInt32} {addr : UInt64} {task : Outgoing π}

/-- What `SendIn` makes on a node. -/
theorem sendIn_made (s : NetState π) (hpool : env.hasContainer task.poolId = true)
    (hbound : task.poolQueries.length ≤ 2 ^ 32) :
    ∃ new queued, Made env addr task.poolId s.nextSend (s.addOrigin addr task)
      (s.sendIn env addr task) 0 task.poolQueries new queued := by
  rw [NetState.sendIn, if_pos hpool]
  exact sendInLoop_made task.poolQueries 0 _
    ⟨_, AMap.find?_insertOrAssign_self _ _ _, rfl, rfl⟩ (by omega)

theorem own_sendIn (h : Own w) (hpool : env.hasContainer task.poolId = true)
    (hbound : task.poolQueries.length ≤ 2 ^ 32) (hfresh : FreshAddress w n addr) :
    Own (w.runAt n fun s => s.sendIn env addr task) := by
  obtain ⟨new, queued, hmade⟩ := @sendIn_made π env addr task (w.nodes n) hpool hbound
  obtain ⟨ipc, sendMap, requests, sendInRetry, counted, nextSend, hwrites⟩ :=
    @sendIn_writes π env (w.nodes n) addr task
  have hnodeId : ((w.nodes n).sendIn env addr task).ipc.nodeId = n.toUInt64 :=
    hmade.nodeId.trans (h.nodeId n)
  have hself : (w.runAt n fun s => s.sendIn env addr task).nodes n =
      { (w.nodes n).sendIn env addr task with requests := [], replies := [] } := runAt_self w
  -- The entry under the address is the new task, and the others are as before.
  have haddr : ∀ origin, (addr, origin) ∈ ((w.nodes n).sendIn env addr task).sendMap.entries →
      origin.sendId = (w.nodes n).nextSend := by
    intro origin ho
    obtain ⟨origin', hfind, _, hid⟩ := hmade.holds
    rw [AMap.find?_eq_some_iff] at hfind
    rw [AMap.mem_unique _ ho hfind]
    exact hid
  have hothers : ∀ key origin, key ≠ addr →
      (key, origin) ∈ ((w.nodes n).sendIn env addr task).sendMap.entries →
      (key, origin) ∈ (w.nodes n).sendMap.entries := by
    intro key origin hne ho
    rcases hmade.others key origin ho with hkey | ho
    · exact absurd hkey hne
    · rcases AMap.mem_insertOrAssign.mp ho with ⟨hkey, _⟩ | ⟨_, ho⟩
      · exact absurd hkey hne
      · exact ho
  refine ⟨?_, ?_, ?_, ?_, ?_⟩
  · intro m
    by_cases hm : m = n
    · rw [hm, hself]
      exact hnodeId
    · rw [runAt_other w hm]
      exact h.nodeId m
  · intro m
    by_cases hm : m = n
    · rw [hm, hself]
      exact ⟨rfl, rfl⟩
    · rw [runAt_other w hm]
      exact h.idle m
  · intro t ht
    have hcases : Outstanding w t ∨ t ∈ copies new queued := by
      rcases outstanding_runAt ht with ht | ht | ht | ⟨m, _, ht⟩
      · exact Or.inl (Or.inl ht)
      · exact Or.inl (Or.inr (Or.inl ht))
      · rcases ht with ht | ht | ht | ht | ht
        · rw [hmade.requests, List.map_append] at ht
          rcases List.mem_append.mp ht with ht | ht
          · exact Or.inl (Or.inr (Or.inr ⟨n, Or.inl ht⟩))
          · exact Or.inr (List.mem_append_left _ ht)
        · rw [hmade.sendInRetry, List.map_append] at ht
          rcases List.mem_append.mp ht with ht | ht
          · exact Or.inl (Or.inr (Or.inr ⟨n, Or.inr (Or.inl ht)⟩))
          · exact Or.inr (List.mem_append_right _ ht)
        · rw [hwrites] at ht
          exact Or.inl (Or.inr (Or.inr ⟨n, Or.inr (Or.inr (Or.inl ht))⟩))
        · rw [hwrites] at ht
          exact Or.inl (Or.inr (Or.inr ⟨n, Or.inr (Or.inr (Or.inr (Or.inl ht)))⟩))
        · rw [hwrites] at ht
          exact Or.inl (Or.inr (Or.inr ⟨n, Or.inr (Or.inr (Or.inr (Or.inr ht)))⟩))
      · exact Or.inl (Or.inr (Or.inr ⟨m, ht⟩))
    rcases hcases with hold | hnew
    · obtain ⟨m, hsender, hret, hid⟩ := h.genuine t hold
      refine ⟨m, hsender, hret, ?_⟩
      intro origin ho
      by_cases hm : m = n
      · rw [hm, hself] at ho
        rw [hm] at hsender hid
        exact hid origin (hothers _ origin (hfresh t hold hsender) ho)
      · rw [runAt_other w hm] at ho
        exact hid origin ho
    · obtain ⟨hkey, hsender, hret, hid⟩ := hmade.made t hnew
      have hnode : (w.nodes n).ipc.nodeId = n.toUInt64 := h.nodeId n
      refine ⟨n, hsender.trans hnode, ?_, ?_⟩
      · rw [hret]
        show (w.nodes n).ipc.nodeId.toUInt32 = n
        rw [hnode, UInt32.toUInt32_toUInt64]
      · intro origin ho
        rw [hself, hkey] at ho
        rw [haddr origin ho, hid]
  · intro x hx
    have hx : x ∈ w.replies ++ ((w.nodes n).sendIn env addr task).replies := hx
    rw [hwrites] at hx
    rcases List.mem_append.mp hx with hx | hx
    · exact h.replies x hx
    · have hnone : (w.nodes n).replies = [] := (h.idle n).2
      have hx : x ∈ (w.nodes n).replies := hx
      rw [hnone] at hx
      exact absurd hx List.not_mem_nil
  · intro m x hx
    by_cases hm : m = n
    · rw [hm, hself, hwrites] at hx
      rw [hm]
      exact h.aggregated n x hx
    · rw [runAt_other w hm] at hx
      exact h.aggregated m x hx

end

theorem own_sub (h : Own w) (hnodes : w'.nodes = w.nodes) (hrequests : ∀ x ∈ w'.requests, x ∈ w.requests)
    (hreplies : ∀ x ∈ w'.replies, x ∈ w.replies) : Own w' where
  nodeId := by rw [hnodes]; exact h.nodeId
  idle := by rw [hnodes]; exact h.idle
  genuine := by
    intro t ht
    have hold : Outstanding w t := by
      rcases ht with ht | ht | ⟨n, ht⟩
      · obtain ⟨x, hx, rfl⟩ := List.mem_map.mp ht
        exact Or.inl (List.mem_map.mpr ⟨x, hrequests x hx, rfl⟩)
      · obtain ⟨x, hx, rfl⟩ := List.mem_map.mp ht
        exact Or.inr (Or.inl (List.mem_map.mpr ⟨x, hreplies x hx, rfl⟩))
      · rw [hnodes] at ht
        exact Or.inr (Or.inr ⟨n, ht⟩)
    obtain ⟨n, hsender, hret, hid⟩ := h.genuine t hold
    exact ⟨n, hsender, hret, by rw [hnodes]; exact hid⟩
  replies := fun x hx => h.replies x (hreplies x hx)
  aggregated := by rw [hnodes]; exact h.aggregated

/-- The address `SendIn` is given is fresh. -/
def Fresh (w : World π) : WorldOp π → Prop
  | .sendIn n env addr task => env.hasContainer task.poolId = true →
      task.poolQueries.length ≤ 2 ^ 32 ∧ FreshAddress w n addr
  | _ => True

/-- No message is given to a step of the node itself. -/
theorem own_quiet {n : UInt32} {f : NetState π → NetState π} (h : Own w)
    (heffect : NetState.Effect (w.nodes n) (f (w.nodes n)) nothing nothing) : Own (w.runAt n f) :=
  own_effect h rfl (fun _ hx => hx) (fun _ hx => hx) heffect (fun _ ht => ht.elim)
    (fun _ ht => ht.elim)

theorem own_apply {op : WorldOp π} (h : Own w) (hop : Fresh w op) : Own (w.apply op) := by
  cases op with
  | sendIn n env addr task =>
    by_cases hpool : env.hasContainer task.poolId = true
    · obtain ⟨hbound, hfresh⟩ := hop hpool
      exact own_sendIn h hpool hbound hfresh
    · have hsame : (w.nodes n).sendIn env addr task = w.nodes n := by
        rw [NetState.sendIn, if_neg hpool]
      refine own_quiet (f := fun s => s.sendIn env addr task) h ?_
      rw [hsame]
      exact effect_ipc _ rfl _ _
  | finish n env i body =>
    rw [apply, finish]
    cases (w.nodes n).dispatched[i]? with
    | none => exact h
    | some task =>
      have hrun : Own (w.runAt n fun s => s.finish env i body) :=
        own_quiet h (effect_finish i body)
      exact ⟨hrun.nodeId, hrun.idle, hrun.genuine, hrun.replies, hrun.aggregated⟩
  | processRetryQueues n env => exact own_quiet h effect_retry
  | scanSendMapTimeouts n env => exact own_quiet h effect_scan
  | setNodeState n now node state =>
    exact own_quiet (f := fun s => { s with ipc := s.ipc.setNodeState now node state }) h
      (effect_ipc _ (setNodeState_nodeId _ _ _ _) _ _)
  | setDead n now node =>
    exact own_quiet (f := fun s => { s with ipc := s.ipc.setDead now node }) h
      (effect_ipc _ (setDead_nodeId _ _ _) _ _)
  | setAlive n now node =>
    exact own_quiet (f := fun s => { s with ipc := s.ipc.setAlive now node }) h
      (effect_ipc _ (setAlive_nodeId _ _ _) _ _)
  | recvIn k env =>
    rw [apply, recvIn]
    cases hget : w.requests[k]? with
    | none => exact h
    | some x =>
      have hx := List.mem_of_getElem? hget
      have hsub : ∀ y ∈ w.requests.eraseIdx k, y ∈ w.requests :=
        fun y hy => List.mem_of_mem_eraseIdx hy
      dsimp only
      split
      · refine own_effect h rfl hsub (fun _ hy => hy) (effect_recvIn x.2) ?_ (fun _ ht => ht.elim)
        rintro t rfl
        exact Or.inl (List.mem_map.mpr ⟨x, hx, rfl⟩)
      · exact own_sub h rfl hsub (fun _ hy => hy)
  | recvOut k env =>
    rw [apply, recvOut]
    cases hget : w.replies[k]? with
    | none => exact h
    | some x =>
      have hx := List.mem_of_getElem? hget
      have hsub : ∀ y ∈ w.replies.eraseIdx k, y ∈ w.replies :=
        fun y hy => List.mem_of_mem_eraseIdx hy
      dsimp only
      split
      · refine own_effect h rfl (fun _ hy => hy) hsub (effect_recvOut x.2) (fun _ ht => ht.elim) ?_
        rintro t rfl
        refine ⟨Or.inr (Or.inl (List.mem_map.mpr ⟨x, hx, rfl⟩)), ?_⟩
        rw [h.replies x hx, UInt32.toUInt32_toUInt64]
      · exact own_sub h rfl (fun _ hy => hy) hsub
  | loseRequest k =>
    exact own_sub h rfl (fun _ hy => List.mem_of_mem_eraseIdx hy) (fun _ hy => hy)
  | loseReply k =>
    exact own_sub h rfl (fun _ hy => hy) (fun _ hy => List.mem_of_mem_eraseIdx hy)

/-! ### Keys -/

/-- The requests on their way to a node, and those it has not answered yet. -/
def toward (w : World π) (d : UInt32) : List (NetTask π) :=
  (w.requests.filter fun x => x.1 = d.toUInt64).map Prod.snd ++ (w.nodes d).dispatched

/-- No two requests share an entry of `recv_map_`, now or when they arrive. -/
structure Keyed (w : World π) : Prop where
  toward : ∀ d, ((toward w d).map recvKey).Nodup
  queued : ∀ n, ((w.nodes n).sendInRetry.map fun entry => recvKey entry.task).Nodup

/-- The key of replica `i` of the task at an address. -/
def replicaKey (addr : UInt64) (i : Nat) : UInt64 :=
  addr ^^^ ((UInt32.ofNat i).toUInt64 * 0x9e3779b97f4a7c15)

/-- Nothing that a step sends has the key of another request where it goes. -/
def Unmistakable (w : World π) : WorldOp π → Prop
  | .sendIn n env addr task => env.hasContainer task.poolId = true →
      (task.poolQueries.length ≤ 2 ^ 32 ∧ FreshAddress w n addr) ∧
        (∀ i query, task.poolQueries[i]? = some query → ∀ d : UInt32,
          (w.nodes n).targetNodeId env task.poolId query = some d.toUInt64 →
            ∀ t ∈ toward w d, recvKey t ≠ replicaKey addr i) ∧
        ∀ i < task.poolQueries.length, ∀ entry ∈ (w.nodes n).sendInRetry,
          recvKey entry.task ≠ replicaKey addr i
  | .processRetryQueues n env => ∀ entry ∈ (w.nodes n).sendInRetry, ∀ d : UInt32,
      d.toUInt64 = entry.targetNodeId ∨ d.toUInt64 = rerouteRetryEntry env entry →
        ∀ t ∈ toward w d, recvKey t ≠ recvKey entry.task
  | _ => True

theorem keyed_start (hosts : UInt32 → AMap Node Host) : Keyed (start hosts : World π) := by
  refine ⟨?_, ?_⟩
  · simp [World.toward, start, NetState.start]
  · simp [start, NetState.start]

/-- Fewer requests are no less apart. -/
theorem Keyed.sub (h : Keyed w) (htoward : ∀ d, (World.toward w' d).Subperm (World.toward w d))
    (hqueued : ∀ n, ((w'.nodes n).sendInRetry.map RetryEntry.task).Sublist
      ((w.nodes n).sendInRetry.map RetryEntry.task)) : Keyed w' := by
  refine ⟨?_, ?_⟩
  · intro d
    obtain ⟨l, hperm, hsub⟩ := htoward d
    exact (hperm.map recvKey).nodup_iff.mp ((h.toward d).sublist (hsub.map recvKey))
  · intro n
    have hsub := (hqueued n).map recvKey
    rw [List.map_map, List.map_map] at hsub
    exact (h.queued n).sublist hsub

/-- More requests under keys that are not taken. -/
theorem nodup_keys_append {l adds : List (NetTask π)} (hl : (l.map recvKey).Nodup)
    (hadds : (adds.map recvKey).Nodup)
    (hapart : ∀ t ∈ l, ∀ t' ∈ adds, recvKey t ≠ recvKey t') : ((l ++ adds).map recvKey).Nodup := by
  rw [List.map_append]
  refine List.nodup_append.mpr ⟨hl, hadds, ?_⟩
  intro k hk k' hk'
  obtain ⟨t, ht, rfl⟩ := List.mem_map.mp hk
  obtain ⟨t', ht', rfl⟩ := List.mem_map.mp hk'
  exact hapart t ht t' ht'

/-- The requests toward a node after a step that sends `new` and leaves its lists as they
are. -/
theorem toward_runAt_perm {n : UInt32} {f : NetState π → NetState π} {new : List (Node × NetTask π)}
    (hnew : (f (w.nodes n)).requests = new) (hdispatched : (f (w.nodes n)).dispatched =
      (w.nodes n).dispatched) (d : UInt32) :
    (World.toward (w.runAt n f) d).Perm
      (World.toward w d ++ (new.filter fun x => x.1 = d.toUInt64).map Prod.snd) := by
  have hnodes : ((w.runAt n f).nodes d).dispatched = (w.nodes d).dispatched := by
    by_cases hd : d = n
    · rw [hd, runAt_self]
      exact hdispatched
    · rw [runAt_other w hd]
  have hrequests : (w.runAt n f).requests = w.requests ++ new := by rw [← hnew]; rfl
  rw [World.toward, World.toward, hnodes, hrequests, List.filter_append, List.map_append]
  simp only [List.append_assoc]
  exact List.Perm.append_left _ List.perm_append_comm

/-- A step that sends nothing and takes up nothing. -/
theorem keyed_quiet {n : UInt32} {f : NetState π → NetState π} (h : Keyed w)
    (hrequests : (f (w.nodes n)).requests = [])
    (hdispatched : (f (w.nodes n)).dispatched.Sublist (w.nodes n).dispatched)
    (hqueued : ((f (w.nodes n)).sendInRetry.map RetryEntry.task).Sublist
      ((w.nodes n).sendInRetry.map RetryEntry.task)) : Keyed (w.runAt n f) := by
  have hreq : (w.runAt n f).requests = w.requests := by
    show w.requests ++ (f (w.nodes n)).requests = w.requests
    rw [hrequests, List.append_nil]
  refine h.sub ?_ ?_
  · intro d
    rw [World.toward, World.toward, hreq]
    refine (List.Sublist.append_left ?_ _).subperm
    by_cases hd : d = n
    · rw [hd, runAt_self]
      exact hdispatched
    · rw [runAt_other w hd]
  · intro m
    by_cases hm : m = n
    · rw [hm, runAt_self]
      exact hqueued
    · rw [runAt_other w hm]

/-- A request arrives: it was on its way to the node, and now the node has it. -/
theorem keyed_recvIn (h : Keyed w) (hidle : ∀ n, (w.nodes n).requests = []) (k : Nat) :
    Keyed (w.recvIn k env) := by
  rw [World.recvIn]
  cases hget : w.requests[k]? with
  | none => exact h
  | some x =>
    obtain ⟨dst, task⟩ := x
    have hlost : Keyed { w with requests := w.requests.eraseIdx k } := by
      refine h.sub ?_ fun _ => List.Sublist.refl _
      intro d
      refine (List.Sublist.append_right ?_ _).subperm
      exact ((List.eraseIdx_sublist _ _).filter _).map _
    dsimp only
    split
    · rename_i hdst
      generalize hd : dst.toUInt32 = d at hdst
      obtain ⟨hrequests, hdispatched, hqueue⟩ := @recvIn_lists π env (w.nodes d) task
      rw [hidle d] at hrequests
      refine h.sub ?_ ?_
      · intro d'
        have hreq : ({ w with requests := w.requests.eraseIdx k }.runAt d
            fun s => s.recvIn env task).requests = w.requests.eraseIdx k := by
          show w.requests.eraseIdx k ++ ((w.nodes d).recvIn env task).requests = _
          rw [hrequests, List.append_nil]
        rw [World.toward, World.toward, hreq]
        by_cases hd' : d' = d
        · have hperm := ((perm_cons_eraseIdx hget).filter fun x => x.1 = d.toUInt64).map Prod.snd
          simp only [← hdst, decide_true, List.filter_cons_of_pos, List.map_cons] at hperm
          rw [hd', runAt_self]
          have hbefore := hperm.append_right (w.nodes d).dispatched
          refine List.Subperm.trans ?_ hbefore.symm.subperm
          rcases hdispatched with hsame | hmore
          · show (_ ++ ((w.nodes d).recvIn env task).dispatched).Subperm _
            rw [hsame]
            exact (List.sublist_cons_self _ _).subperm
          · show (_ ++ ((w.nodes d).recvIn env task).dispatched).Subperm _
            rw [hmore, ← List.append_assoc]
            exact (List.perm_append_singleton _ _).subperm
        · rw [runAt_other _ hd']
          refine (List.Sublist.append_right ?_ _).subperm
          exact ((List.eraseIdx_sublist _ _).filter _).map _
      · intro m
        by_cases hm : m = d
        · rw [hm, runAt_self]
          exact hqueue.map _
        · rw [runAt_other _ hm]
    · exact hlost

theorem keyed_retry {n : UInt32} (h : Keyed w) (hidle : (w.nodes n).requests = [])
    (hapart : ∀ entry ∈ (w.nodes n).sendInRetry, ∀ d : UInt32,
      d.toUInt64 = entry.targetNodeId ∨ d.toUInt64 = rerouteRetryEntry env entry →
        ∀ t ∈ World.toward w d, recvKey t ≠ recvKey entry.task) :
    Keyed (w.runAt n fun s => s.processRetryQueues env) := by
  obtain ⟨ipc, recvMap, replies, sendOutRetry, hwrites, _⟩ :=
    @processRetryQueues_writes π env (w.nodes n)
  obtain ⟨hsentSub, hkeptSub⟩ := @retryInAll_sublists π env (w.nodes n) (w.nodes n).sendInRetry 0
  have hsent := @retryInAll_sent π env (w.nodes n) (w.nodes n).sendInRetry 0
  have hnew : ((w.nodes n).processRetryQueues env).requests =
      ((w.nodes n).retryInAll env 0 (w.nodes n).sendInRetry).filterMap Retried.sent? := by
    rw [hwrites]
    show (w.nodes n).requests ++ _ = _
    rw [hidle, List.nil_append]
  have hqueued : (((w.nodes n).sendInRetry.map RetryEntry.task).map recvKey).Nodup := by
    rw [List.map_map]
    exact h.queued n
  refine ⟨?_, ?_⟩
  · intro d
    have hperm := @toward_runAt_perm π w n (fun s => s.processRetryQueues env) _ hnew
      (by rw [hwrites]; rfl) d
    refine (hperm.map recvKey).nodup_iff.mpr (nodup_keys_append (h.toward d) ?_ ?_)
    · exact hqueued.sublist ((((List.filter_sublist.map Prod.snd).trans hsentSub)).map recvKey)
    · intro t ht t' ht'
      obtain ⟨x, hx, rfl⟩ := List.mem_map.mp ht'
      obtain ⟨hx, hdst⟩ := List.mem_filter.mp hx
      obtain ⟨entry, hentry, htask, hnode⟩ := hsent x hx
      rw [of_decide_eq_true hdst] at hnode
      rw [← htask]
      exact hapart entry hentry d hnode t ht
  · intro m
    by_cases hm : m = n
    · rw [hm, runAt_self, hwrites]
      have hsub := hkeptSub.map recvKey
      have hkept := hqueued.sublist hsub
      rw [List.map_map] at hkept
      exact hkept
    · rw [runAt_other w hm]
      exact h.queued m

/-- The copies of one task have keys of their own. -/
theorem made_keys {addr : UInt64} {poolId : PoolId} {id i : Nat} {s s' : NetState π}
    {queries : List PoolQuery} {new : List (Node × NetTask π)} {queued : List (RetryEntry π)}
    (h : Made env addr poolId id s s' i queries new queued) :
    ((copies new queued).map recvKey).Nodup := by
  refine List.Nodup.map_on ?_ h.distinct.of_map
  intro t ht t' ht' heq
  have hkey : t.netKey = t'.netKey := by rw [(h.made t ht).netKey, (h.made t' ht').netKey]
  exact List.inj_on_of_nodup_map h.distinct ht ht' (replicaId_of_recvKey hkey heq)

theorem recvKey_eq_replicaKey {addr : UInt64} {t : NetTask π} (h : t.netKey = addr) :
    recvKey t = replicaKey addr t.replicaId.toNat := by
  rw [recvKey, replicaKey, h, UInt32.ofNat_toNat]

theorem keyed_sendIn {n : UInt32} {addr : UInt64} {task : Outgoing π} (h : Keyed w)
    (hidle : (w.nodes n).requests = []) (hpool : env.hasContainer task.poolId = true)
    (hbound : task.poolQueries.length ≤ 2 ^ 32)
    (hapart : ∀ i query, task.poolQueries[i]? = some query → ∀ d : UInt32,
      (w.nodes n).targetNodeId env task.poolId query = some d.toUInt64 →
        ∀ t ∈ World.toward w d, recvKey t ≠ replicaKey addr i)
    (hown : ∀ i < task.poolQueries.length, ∀ entry ∈ (w.nodes n).sendInRetry,
      recvKey entry.task ≠ replicaKey addr i) :
    Keyed (w.runAt n fun s => s.sendIn env addr task) := by
  obtain ⟨new, queued, hmade⟩ := @sendIn_made π env addr task (w.nodes n) hpool hbound
  obtain ⟨ipc, sendMap, requests, sendInRetry, counted, nextSend, hwrites⟩ :=
    @sendIn_writes π env (w.nodes n) addr task
  have hkeys := made_keys hmade
  have hnew : ((w.nodes n).sendIn env addr task).requests = new := by
    rw [hmade.requests]
    show (w.nodes n).requests ++ new = new
    rw [hidle, List.nil_append]
  have hqueue : ((w.nodes n).sendIn env addr task).sendInRetry =
      (w.nodes n).sendInRetry ++ queued := hmade.sendInRetry
  refine ⟨?_, ?_⟩
  · intro d
    have hperm := @toward_runAt_perm π w n (fun s => s.sendIn env addr task) _ hnew
      (by rw [hwrites]) d
    refine (hperm.map recvKey).nodup_iff.mpr (nodup_keys_append (h.toward d) ?_ ?_)
    · have hsub : ((new.filter fun x => x.1 = d.toUInt64).map Prod.snd).Sublist (copies new queued) :=
        (List.filter_sublist.map Prod.snd).trans (List.sublist_append_left _ _)
      exact hkeys.sublist (hsub.map recvKey)
    · intro t ht t' ht'
      obtain ⟨x, hx, rfl⟩ := List.mem_map.mp ht'
      obtain ⟨hx, hdst⟩ := List.mem_filter.mp hx
      have hcopy : x.2 ∈ copies new queued := List.mem_append_left _ (List.mem_map.mpr ⟨x, hx, rfl⟩)
      obtain ⟨query, hquery, htarget⟩ := hmade.targets x hx
      rw [Nat.sub_zero] at hquery
      rw [of_decide_eq_true hdst] at htarget
      rw [recvKey_eq_replicaKey (hmade.made x.2 hcopy).netKey]
      exact hapart _ query hquery d htarget t ht
  · intro m
    by_cases hm : m = n
    · rw [hm, runAt_self]
      show (((w.nodes n).sendIn env addr task).sendInRetry.map fun e => recvKey e.task).Nodup
      rw [hqueue, List.map_append]
      refine List.nodup_append.mpr ⟨h.queued n, ?_, ?_⟩
      · have hsub : (queued.map RetryEntry.task).Sublist (copies new queued) :=
          List.sublist_append_right _ _
        have hnodup := hkeys.sublist (hsub.map recvKey)
        rw [List.map_map] at hnodup
        exact hnodup
      · intro key hkey key' hkey' heq
        obtain ⟨e, he, rfl⟩ := List.mem_map.mp hkey
        obtain ⟨e', he', rfl⟩ := List.mem_map.mp hkey'
        have hcopy : e'.task ∈ copies new queued :=
          List.mem_append_right _ (List.mem_map.mpr ⟨e', he', rfl⟩)
        rw [recvKey_eq_replicaKey (hmade.made e'.task hcopy).netKey] at heq
        have hplace := (hmade.places e'.task hcopy).2
        rw [Nat.zero_add] at hplace
        exact hown _ hplace e he heq
    · rw [runAt_other w hm]
      exact h.queued m

theorem keyed_apply {op : WorldOp π} (h : Keyed w) (hidle : ∀ n, (w.nodes n).requests = [])
    (hop : Unmistakable w op) : Keyed (w.apply op) := by
  have hrefl : ∀ n, ((w.nodes n).sendInRetry.map RetryEntry.task).Sublist
      ((w.nodes n).sendInRetry.map RetryEntry.task) := fun n => List.Sublist.refl _
  cases op with
  | sendIn n env addr task =>
    by_cases hpool : env.hasContainer task.poolId = true
    · obtain ⟨⟨hbound, _⟩, hapart, hown⟩ := hop hpool
      exact keyed_sendIn h (hidle n) hpool hbound hapart hown
    · have hsame : (w.nodes n).sendIn env addr task = w.nodes n := by
        rw [NetState.sendIn, if_neg hpool]
      refine keyed_quiet (f := fun s => s.sendIn env addr task) h ?_ ?_ ?_
      · rw [hsame]
        exact hidle n
      · rw [hsame]
      · rw [hsame]
  | finish n env i body =>
    rw [apply, finish]
    cases (w.nodes n).dispatched[i]? with
    | none => exact h
    | some task =>
      obtain ⟨_, _, _, _, _, hwrites, hsub⟩ := @finish_writes π env (w.nodes n) i body
      have hrun : Keyed (w.runAt n fun s => s.finish env i body) := by
        refine keyed_quiet h ?_ ?_ ?_
        · rw [hwrites]
          exact hidle n
        · rw [hwrites]
          exact hsub
        · rw [hwrites]
      exact ⟨hrun.toward, hrun.queued⟩
  | processRetryQueues n env => exact keyed_retry h (hidle n) hop
  | scanSendMapTimeouts n env => exact keyed_quiet h (hidle n) (List.Sublist.refl _) (hrefl n)
  | setNodeState n now node state =>
    exact keyed_quiet (f := fun s => { s with ipc := s.ipc.setNodeState now node state }) h
      (hidle n) (List.Sublist.refl _) (hrefl n)
  | setDead n now node =>
    exact keyed_quiet (f := fun s => { s with ipc := s.ipc.setDead now node }) h (hidle n)
      (List.Sublist.refl _) (hrefl n)
  | setAlive n now node =>
    exact keyed_quiet (f := fun s => { s with ipc := s.ipc.setAlive now node }) h (hidle n)
      (List.Sublist.refl _) (hrefl n)
  | recvIn k env => exact keyed_recvIn h hidle k
  | recvOut k env =>
    rw [apply, recvOut]
    cases w.replies[k]? with
    | none => exact h
    | some x =>
      have hrest : Keyed { w with replies := w.replies.eraseIdx k } := ⟨h.toward, h.queued⟩
      obtain ⟨_, _, _, _, hwrites⟩ := @recvOut_writes π env (w.nodes x.1.toUInt32) x.2
      dsimp only
      split
      · refine keyed_quiet hrest ?_ ?_ ?_
        · rw [hwrites]
          exact hidle _
        · rw [hwrites]
        · rw [hwrites]
      · exact hrest
  | loseRequest k =>
    refine h.sub ?_ hrefl
    intro d
    refine (List.Sublist.append_right ?_ _).subperm
    exact ((List.eraseIdx_sublist _ _).filter _).map _
  | loseReply k => exact ⟨h.toward, h.queued⟩

/-! ### Whole runs -/

/-- Two requests a node has received and not answered have an entry each, and every answer went
to the task that asked. -/
structure RepliesOwn (w : World π) : Prop where
  entries : ∀ d, ∀ t ∈ (w.nodes d).dispatched, ∀ t' ∈ (w.nodes d).dispatched,
    recvKey t = recvKey t' → t.sender = t'.sender ∧ t.netKey = t'.netKey ∧ t.replicaId = t'.replicaId
  own : ∀ n, ∀ x ∈ (w.nodes n).aggregated, x.1.sender = n.toUInt64 ∧ x.1.sendId = x.2

/-- **Answers reach only their own request in every run without mistakable keys.** -/
theorem repliesOwn_of_run (hosts : UInt32 → AMap Node Host) (ops : List (WorldOp π))
    (hrun : Along (fun op w w' => Unmistakable w op ∧ w' = w.apply op) ops (start hosts) w) :
    RepliesOwn w := by
  have hinv : Own w ∧ Keyed w := by
    refine hrun.invariant (I := fun w => Own w ∧ Keyed w) ?_ ⟨own_start hosts, keyed_start hosts⟩
    rintro op _ w w' ⟨hown, hkeyed⟩ ⟨hop, rfl⟩
    refine ⟨own_apply hown ?_, keyed_apply hkeyed (fun n => (hown.idle n).1) hop⟩
    cases op with
    | sendIn n env addr task => exact fun hpool => (hop hpool).1
    | _ => trivial
  refine ⟨?_, hinv.1.aggregated⟩
  intro d t ht t' ht' heq
  have hsame := List.inj_on_of_nodup_map (hinv.2.toward d) (List.mem_append_right _ ht)
    (List.mem_append_right _ ht') heq
  subst hsame
  exact ⟨rfl, rfl, rfl⟩

def threeNodes : UInt32 → AMap Node Host := fun _ =>
  ⟨[(0, ⟨"10.0.0.1", .alive, 0⟩), (1, ⟨"10.0.0.2", .alive, 0⟩), (2, ⟨"10.0.0.3", .alive, 0⟩)],
    by decide⟩

/-- Nodes 1 and 2 ask node 0, which receives both requests and answers both. -/
def ownKeys : List (WorldOp Unit) :=
  [.sendIn 1 fairEnv 0x1000 (taskFor 0), .sendIn 2 fairEnv 0x2000 (taskFor 0), .recvIn 0 fairEnv,
    .recvIn 0 fairEnv, .finish 0 fairEnv 0 (), .finish 0 fairEnv 0 (), .recvOut 0 fairEnv,
    .recvOut 0 fairEnv]

/-- The first request is on its way, and nothing else is anywhere. -/
theorem outstanding_first {t : NetTask Unit}
    (ht : Outstanding ((start threeNodes).apply (.sendIn 1 fairEnv 0x1000 (taskFor 0))) t) :
    t.sender = 1 ∧ recvKey t = 0x1000 := by
  obtain hsent | hback | ⟨n, hheld⟩ := ht
  · obtain rfl := List.mem_singleton.mp hsent
    decide
  · cases hback
  · by_cases hn : n = 1
    · subst hn
      obtain h | h | h | h | h := hheld <;> cases h
    · rw [apply, runAt_other _ hn] at hheld
      obtain h | h | h | h | h := hheld <;> cases h

/-- Both requests have an entry while they are worked on, and both answers go back. -/
theorem repliesOwn_ownKeys :
    let received := (ownKeys.take 4).foldl apply (start threeNodes)
    let answered := ownKeys.foldl apply (start threeNodes)
    (RepliesOwn received ∧ (received.nodes 0).dispatched.map (fun t => (t.sender, recvKey t)) =
        [(1, 0x1000), (2, 0x2000)]) ∧
      RepliesOwn answered ∧ (answered.nodes 1).aggregated.map (fun x => (x.1.netKey, x.2)) =
          [(0x1000, 0)] ∧
        (answered.nodes 2).aggregated.map (fun x => (x.1.netKey, x.2)) = [(0x2000, 0)] := by
  have hfirst : Unmistakable (start threeNodes) (.sendIn 1 fairEnv 0x1000 (taskFor 0)) := by
    intro _
    refine ⟨⟨by decide, ?_⟩, ?_, ?_⟩
    · intro t ht
      simp [Outstanding, start, NetState.start, Held] at ht
    · simp [World.toward, start, NetState.start]
    · simp [start, NetState.start]
  have hsecond : Unmistakable ((start threeNodes).apply (.sendIn 1 fairEnv 0x1000 (taskFor 0)))
      (.sendIn 2 fairEnv 0x2000 (taskFor 0)) := by
    intro _
    refine ⟨⟨by decide, ?_⟩, ?_, ?_⟩
    · intro t ht hsender
      rw [(outstanding_first ht).1] at hsender
      exact absurd hsender (by decide)
    · intro i query hquery d _ t ht
      obtain rfl : i = 0 := Nat.lt_one_iff.mp (List.getElem?_eq_some_iff.mp hquery).1
      have hout : Outstanding _ t := (List.mem_append.mp ht).imp
        (fun h => (List.filter_sublist.map Prod.snd).subset h)
        fun h => .inr ⟨d, .inr (.inr (.inl h))⟩
      rw [(outstanding_first hout).2]
      decide
    · intro i _ entry hentry
      cases hentry
  refine ⟨⟨repliesOwn_of_run threeNodes (ownKeys.take 4) ⟨_, ⟨hfirst, rfl⟩, _, ⟨hsecond, rfl⟩, _,
      ⟨trivial, rfl⟩, _, ⟨trivial, rfl⟩, rfl⟩, by decide +kernel⟩,
    repliesOwn_of_run threeNodes ownKeys ⟨_, ⟨hfirst, rfl⟩, _, ⟨hsecond, rfl⟩, _,
      ⟨trivial, rfl⟩, _, ⟨trivial, rfl⟩, _, ⟨trivial, rfl⟩, _, ⟨trivial, rfl⟩, _, ⟨trivial, rfl⟩, _,
      ⟨trivial, rfl⟩, rfl⟩, by decide +kernel, by decide +kernel⟩

/-- Nodes 1 and 2 have a task at the same address, and both ask node 0. -/
def sharedKey : List (WorldOp Unit) :=
  [.sendIn 1 fairEnv 0x1000 (taskFor 0), .sendIn 2 fairEnv 0x1000 (taskFor 0), .recvIn 0 fairEnv,
    .recvIn 0 fairEnv]

/-- A task of node 0 times out, its address is used again, and then the answer comes. -/
def reusedAddress : List (WorldOp Unit) :=
  [.sendIn 0 fairEnv 0x1000 (taskFor 1), .recvIn 0 fairEnv, .setDead 0 0 1,
    .scanSendMapTimeouts 0 { fairEnv with now := 31000000000 },
    .sendIn 0 fairEnv 0x1000 (taskFor 2), .finish 1 fairEnv 0 (), .recvOut 0 fairEnv]

/-- Two requests of different senders have one entry, and an answer to the first task of node 0
is aggregated into its second. -/
theorem key_shared_answer_mistaken :
    ((sharedKey.foldl apply (start threeNodes)).nodes 0).dispatched.map
        (fun t => (t.sender, recvKey t)) = [(1, 0x1000), (2, 0x1000)] ∧
      ((reusedAddress.foldl apply (start threeNodes)).nodes 0).aggregated.map
        (fun x => (x.1.sendId, x.2)) = [(0, 1)] := by
  decide +kernel

end World
end Cluster
end IowarpCore
