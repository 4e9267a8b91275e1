/-
What the setters of the host table do to it.

`stateOf` is the state a node has in the table, if it is there.  `SetNodeState` changes it for
one node and nothing else; `SetDead` and `SetAlive` do so and move the node into or out of the
list of dead nodes.  `Listed` says that this list is what it should be: one entry for each node
in state `kDead` and none for any other.
-/
import IowarpCore.Cluster.Membership

namespace IowarpCore
namespace Cluster
namespace IpcManager

variable {ipc : IpcManager} {now : Time} {node n : Node} {st : NodeState}

def stateOf (ipc : IpcManager) (node : Node) : Option NodeState :=
  (ipc.hostfileMap.find? node).map Host.state

/-- One entry for each dead node and none for any other. -/
def Listed (ipc : IpcManager) : Prop :=
  ∀ node, (ipc.deadNodes.filter fun entry => entry.nodeId = node).length =
    if ipc.stateOf node = some .dead then 1 else 0

/-- A copy of the table that counts as valid is one. -/
def Coherent (ipc : IpcManager) : Prop :=
  ipc.hostsCacheValid = true → ipc.hostsCache = ipc.hostfileMap.entries

/-- The ids of the table are the numbers below its size. -/
def Dense (hosts : AMap Node Host) : Prop :=
  ∀ node : Node, hosts.contains node = true ↔ node.toNat < hosts.entries.length

/-! ### `SetNodeState` -/

theorem stateOf_eq_some_iff :
    ipc.stateOf node = some st ↔ ∃ host, ipc.hostfileMap.find? node = some host ∧ host.state = st := by
  rw [stateOf, Option.map_eq_some_iff]

/-- Only the state of the node itself changes. -/
theorem stateOf_setNodeState :
    (ipc.setNodeState now node st).stateOf n =
      if n = node then (ipc.stateOf node).map fun _ => st else ipc.stateOf n := by
  unfold setNodeState stateOf
  cases hfind : ipc.hostfileMap.find? node with
  | none =>
    dsimp only
    by_cases hn : n = node
    · rw [if_pos hn, hn, hfind]
      rfl
    · rw [if_neg hn]
  | some host =>
    dsimp only
    rw [AMap.find?_insertOrAssign]
    by_cases hn : n = node
    · rw [if_pos hn, if_pos hn]
      rfl
    · rw [if_neg hn, if_neg hn]

@[simp] theorem setNodeState_deadNodes :
    (ipc.setNodeState now node st).deadNodes = ipc.deadNodes := by
  unfold setNodeState
  split <;> rfl

theorem setNodeState_coherent (h : ipc.Coherent) : (ipc.setNodeState now node st).Coherent := by
  unfold setNodeState
  split
  · exact h
  · intro hvalid
    simp at hvalid

theorem length_insertOrAssign_of_find {hosts : AMap Node Host} {host host' : Host}
    (h : hosts.find? node = some host) :
    (hosts.insertOrAssign node host').entries.length = hosts.entries.length := by
  rw [AMap.insertOrAssign, dif_pos (by rw [AMap.contains, h]; rfl)]
  exact List.length_map _

theorem setNodeState_dense (h : Dense ipc.hostfileMap) :
    Dense (ipc.setNodeState now node st).hostfileMap := by
  unfold setNodeState
  cases hfind : ipc.hostfileMap.find? node with
  | none => exact h
  | some host =>
    intro n
    dsimp only
    rw [length_insertOrAssign_of_find hfind, ← h n, AMap.contains, AMap.contains,
      AMap.find?_insertOrAssign]
    by_cases hn : n = node
    · rw [if_pos hn, hn, hfind]
      simp
    · rw [if_neg hn]

/-- A node that is neither dead before nor after leaves the list as it should be. -/
theorem setNodeState_listed (h : ipc.Listed) (hnode : ipc.stateOf node ≠ some .dead)
    (hst : st ≠ .dead) : (ipc.setNodeState now node st).Listed := by
  intro n
  rw [setNodeState_deadNodes, h n, stateOf_setNodeState]
  by_cases hn : n = node
  · rw [if_pos hn, hn, if_neg hnode]
    cases ipc.stateOf node <;> simp [hst]
  · rw [if_neg hn]

/-! ### `SetDead` and `SetAlive` -/

theorem stateOf_setDead :
    (ipc.setDead now node).stateOf n =
      if n = node then (ipc.stateOf node).map fun _ => .dead else ipc.stateOf n := by
  unfold setDead
  cases hfind : ipc.hostfileMap.find? node with
  | none =>
    dsimp only
    by_cases hn : n = node
    · rw [if_pos hn, hn, stateOf, hfind]
      rfl
    · rw [if_neg hn]
  | some host =>
    dsimp only
    by_cases hdead : host.state = .dead
    · rw [if_pos hdead]
      by_cases hn : n = node
      · rw [if_pos hn, hn, stateOf, hfind]
        simp [hdead]
      · rw [if_neg hn]
    · rw [if_neg hdead]
      exact stateOf_setNodeState

theorem setDead_coherent (h : ipc.Coherent) : (ipc.setDead now node).Coherent := by
  unfold setDead
  split
  · exact h
  · split
    · exact h
    · exact setNodeState_coherent h

theorem setDead_dense (h : Dense ipc.hostfileMap) : Dense (ipc.setDead now node).hostfileMap := by
  unfold setDead
  split
  · exact h
  · split
    · exact h
    · exact setNodeState_dense h

theorem setDead_listed (h : ipc.Listed) : (ipc.setDead now node).Listed := by
  intro n
  rw [stateOf_setDead]
  have hn := h n
  unfold setDead
  cases hfind : ipc.hostfileMap.find? node with
  | none =>
    dsimp only
    by_cases heq : n = node
    · rw [heq, stateOf, hfind] at hn
      rw [if_pos heq, heq, stateOf, hfind]
      exact hn
    · rw [if_neg heq]
      exact hn
  | some host =>
    have hstate : ipc.stateOf node = some host.state := by rw [stateOf, hfind]; rfl
    dsimp only
    by_cases hdead : host.state = .dead
    · rw [if_pos hdead]
      by_cases heq : n = node
      · rw [heq, hstate] at hn
        rw [if_pos heq, heq, hstate]
        simpa [hdead] using hn
      · rw [if_neg heq]
        exact hn
    · rw [if_neg hdead]
      dsimp only
      rw [List.filter_append, List.length_append, hn]
      by_cases heq : n = node
      · rw [heq, hstate]
        simp [hdead]
      · simp [heq, Ne.symm heq]

/-- A dead node that is alive again. -/
theorem setAlive_listed (h : ipc.Listed) : (ipc.setAlive now node).Listed := by
  unfold setAlive
  cases hfind : ipc.hostfileMap.find? node with
  | none => exact h
  | some host =>
    dsimp only
    by_cases halive : host.state = .alive
    · rw [if_pos halive]
      exact h
    · rw [if_neg halive]
      intro n
      have hstate : IpcManager.stateOf { ipc.setNodeState now node .alive with
          deadNodes := ipc.deadNodes.filter fun entry => entry.nodeId ≠ node } n =
        (ipc.setNodeState now node .alive).stateOf n := rfl
      rw [hstate, stateOf_setNodeState]
      dsimp only
      rw [List.filter_filter]
      by_cases heq : n = node
      · rw [heq, if_pos rfl, stateOf, hfind]
        simp
      · rw [if_neg heq, ← h n]
        congr 1
        refine List.filter_congr fun entry _ => ?_
        by_cases he : entry.nodeId = n
        · simp [he, heq]
        · simp [he]

theorem stateOf_setAlive :
    (ipc.setAlive now node).stateOf n =
      if n = node then (ipc.stateOf node).map fun _ => .alive else ipc.stateOf n := by
  unfold setAlive
  cases hfind : ipc.hostfileMap.find? node with
  | none =>
    dsimp only
    by_cases hn : n = node
    · rw [if_pos hn, hn, stateOf, hfind]
      rfl
    · rw [if_neg hn]
  | some host =>
    dsimp only
    by_cases halive : host.state = .alive
    · rw [if_pos halive]
      by_cases hn : n = node
      · rw [if_pos hn, hn, stateOf, hfind]
        simp [halive]
      · rw [if_neg hn]
    · rw [if_neg halive]
      exact stateOf_setNodeState

theorem setAlive_coherent (h : ipc.Coherent) : (ipc.setAlive now node).Coherent := by
  unfold setAlive
  split
  · exact h
  · split
    · exact h
    · exact setNodeState_coherent h

theorem setAlive_dense (h : Dense ipc.hostfileMap) : Dense (ipc.setAlive now node).hostfileMap := by
  unfold setAlive
  split
  · exact h
  · split
    · exact h
    · exact setNodeState_dense h

/-! ### The copy of the table -/

theorem getAllHosts_hostfileMap : ipc.getAllHosts.hostfileMap = ipc.hostfileMap := by
  unfold getAllHosts
  split <;> rfl

theorem getAllHosts_deadNodes : ipc.getAllHosts.deadNodes = ipc.deadNodes := by
  unfold getAllHosts
  split <;> rfl

theorem getAllHosts_hostsCache (h : ipc.Coherent) :
    ipc.getAllHosts.hostsCache = ipc.hostfileMap.entries := by
  unfold getAllHosts
  split
  · rename_i hvalid
    exact h hvalid
  · rfl

theorem getAllHosts_coherent (h : ipc.Coherent) : ipc.getAllHosts.Coherent := by
  intro _
  rw [getAllHosts_hostsCache h, getAllHosts_hostfileMap]

/-! ### Growing tables -/

/-- The number after the last id is free. -/
theorem Dense.free {hosts : AMap Node Host} (h : Dense hosts) (hlen : hosts.entries.length < 2 ^ 64) :
    hosts.find? (UInt64.ofNat hosts.entries.length) = none := by
  have hnot := h (UInt64.ofNat hosts.entries.length)
  rw [UInt64.toNat_ofNat_of_lt' hlen] at hnot
  cases hfind : hosts.find? (UInt64.ofNat hosts.entries.length) with
  | none => rfl
  | some host =>
    rw [AMap.contains, hfind] at hnot
    exact absurd (hnot.mp rfl) (Nat.lt_irrefl _)

theorem Dense.append {hosts : AMap Node Host} (h : Dense hosts)
    (hlen : hosts.entries.length < 2 ^ 64) (host : Host) :
    Dense (hosts.insertOrAssign (UInt64.ofNat hosts.entries.length) host) := by
  have hfree := h.free hlen
  have hlength : (hosts.insertOrAssign (UInt64.ofNat hosts.entries.length) host).entries.length =
      hosts.entries.length + 1 := by
    rw [AMap.insertOrAssign, dif_neg (by rw [AMap.contains, hfree]; simp)]
    exact List.length_append
  intro node
  rw [hlength, AMap.contains, AMap.find?_insertOrAssign]
  have hnode := h node
  rw [AMap.contains] at hnode
  by_cases heq : node = UInt64.ofNat hosts.entries.length
  · rw [if_pos heq, heq, UInt64.toNat_ofNat_of_lt' hlen]
    simp
  · rw [if_neg heq, hnode]
    have hne : node.toNat ≠ hosts.entries.length := by
      intro hval
      apply heq
      rw [← hval, UInt64.ofNat_toNat]
    omega

theorem dense_loadHostfile (lines : List String) : ∀ (offset : Nat) (hosts : AMap Node Host),
    Dense hosts → hosts.entries.length = min offset (2 ^ 64) →
    Dense (loadHostfile now offset lines hosts) := by
  induction lines with
  | nil =>
    intro _ _ h _
    exact h
  | cons ip lines ih =>
    intro offset hosts h hlen
    unfold loadHostfile
    by_cases hoffset : offset < 2 ^ 64
    · have hlen' : hosts.entries.length = offset := by omega
      subst hlen'
      refine ih _ _ (h.append hoffset _) ?_
      rw [AMap.insertOrAssign, dif_neg (by rw [AMap.contains, h.free hoffset]; simp)]
      simp only [List.length_append, List.length_cons, List.length_nil]
      omega
    · -- every id is taken, and the line replaces a host
      have hfull : hosts.entries.length = 2 ^ 64 := by omega
      have hcontains : hosts.contains (UInt64.ofNat offset) = true := by
        rw [h, hfull]
        exact UInt64.toNat_lt _
      obtain ⟨host, hhost⟩ := Option.isSome_iff_exists.mp hcontains
      have hsame := @length_insertOrAssign_of_find _ _ _ ⟨ip, .alive, now⟩ hhost
      refine ih _ _ ?_ (by rw [hsame]; omega)
      intro node
      rw [hsame, hfull]
      refine ⟨fun _ => UInt64.toNat_lt _, fun _ => ?_⟩
      have hnode : hosts.contains node = true := by
        rw [h, hfull]
        exact UInt64.toNat_lt _
      rw [AMap.contains, AMap.find?_insertOrAssign]
      split
      · rfl
      · exact hnode

theorem addNode_cases (ipAddress : String) :
    (∃ node, ipc.addNode now ipAddress = ipc.setAlive now node) ∨
      ipc.addNode now ipAddress =
        { ipc with
          hostfileMap := ipc.hostfileMap.insertOrAssign
            (UInt64.ofNat ipc.hostfileMap.entries.length) ⟨ipAddress, .alive, now⟩
          hostsCacheValid := false } := by
  unfold addNode
  split
  · rename_i host _
    exact Or.inl ⟨host.1, rfl⟩
  · exact Or.inr rfl

/-- A node that joins is alive and not listed. -/
theorem addNode_listed (h : ipc.Listed) (hdense : Dense ipc.hostfileMap)
    (hlen : ipc.hostfileMap.entries.length < 2 ^ 64) (ipAddress : String) :
    (ipc.addNode now ipAddress).Listed := by
  rcases @addNode_cases ipc now ipAddress with ⟨node, hadd⟩ | hadd
  · rw [hadd]
    exact setAlive_listed h
  · rw [hadd]
    intro n
    dsimp only
    rw [h n, stateOf, stateOf, AMap.find?_insertOrAssign]
    by_cases hn : n = UInt64.ofNat ipc.hostfileMap.entries.length
    · rw [if_pos hn, hn, hdense.free hlen]
      simp
    · rw [if_neg hn]

end IpcManager
end Cluster
end IowarpCore
