/-
What the answers of the replicas make of a task.

A replica is a copy of the task under another query and another id.  Five task types add
its outputs to the task's own; their aggregation gives sums and keeps the task what it
was, however the answers arrive and however often they were forwarded.  The others copy
the replica over the task, so the last answer takes the place of all others and of the
task's own query.
-/
import IowarpCore.Cte.TaskTypes
import Mathlib

namespace IowarpCore.Cte.Wire

/-! ### Runs of `SendIn` and `RecvOut` -/

/-- Answers to a task on `here`, one after the other: `leaves` are the tasks as the
containers that ran them left them, and the last argument is what the task is by then.
The copies were made before the first answer.  A replica is run by a container, or it is
sent on by the node it came to and gathers answers itself. -/
inductive Gathers (net : Cluster.Network) (T : TaskType) :
    Cluster.NodeId → Task T.Fields → List (Task T.Fields) → Task T.Fields → Prop
  | start {here origin} : Gathers net T here origin [] origin
  | ran {here origin leaves t result} (query : PoolQuery) (netKey : UInt64) (i : UInt32)
      (place : UInt64) :
      Gathers net T here origin leaves t →
      query ∈ Cluster.resolvePoolQuery net here origin.base.poolQuery →
      Cluster.targetNode net here query ≠ none → T.paired result.own →
      Gathers net T here origin (leaves ++ [result])
        (T.aggregate (T.loadOut place result (T.copyFor netKey i query here origin)) t)
  | forwarded {here origin leaves t there more result} (query : PoolQuery) (netKey : UInt64)
      (i : UInt32) (place place' : UInt64) :
      Gathers net T here origin leaves t →
      query ∈ Cluster.resolvePoolQuery net here origin.base.poolQuery →
      Cluster.targetNode net here query ≠ none →
      Gathers net T there (T.received place (T.copyFor netKey i query here origin)) more result →
      more ≠ [] →
      Gathers net T here origin (leaves ++ more)
        (T.aggregate (T.loadOut place' result (T.copyFor netKey i query here origin)) t)

/-- What aggregation is for: the code tells whether a replica failed, counts are summed,
names without a limit are collected, and the task is still the same task. -/
structure Merged (T : TaskType) (origin : Task T.Fields) (leaves : List (Task T.Fields))
    (t : Task T.Fields) : Prop where
  returnCode : t.base.returnCode ≠ 0 ↔ ∃ r ∈ leaves, r.base.returnCode ≠ 0
  counts : ∀ c ∈ T.counts, c t.own = (leaves.map fun r => c r.own).sum
  names : T.limit origin.own = 0 →
    ∀ n ∈ T.names, (n t.own).Perm (leaves.flatMap fun r => n r.own)
  taskId : t.base.taskId = origin.base.taskId
  poolQuery : t.base.poolQuery = origin.base.poolQuery
  taskFlags : t.base.taskFlags = origin.base.taskFlags
  buffer : T.buffer t.own = T.buffer origin.own

/-- The methods whose `Aggregate` merges. -/
def Method.merges (m : Method) : Bool :=
  m = .listTargets || m = .getTagSize || m = .getContainedBlobs || m = .tagQuery || m = .blobQuery

/-! ### The lists of fields -/

/-- What the loops and lists of a type have to do for outputs to be summed. -/
structure Carries (T : TaskType) : Prop where
  copy : ∀ other own, T.copy other own = other
  counts_null : ∀ c ∈ T.counts, ∀ place sent, c (T.serializeIn place sent T.null) = 0
  names_null : ∀ n ∈ T.names, ∀ place sent, n (T.serializeIn place sent T.null) = []
  paired_null : ∀ place sent, T.paired (T.serializeIn place sent T.null)
  limit_sent : ∀ place sent own, T.limit (T.serializeIn place sent own) = T.limit sent
  counts_sent : ∀ c ∈ T.counts, ∀ place sent own, c (T.serializeOut place sent own) = c sent
  names_sent : ∀ n ∈ T.names, ∀ place sent own, n (T.serializeOut place sent own) = n sent
  paired_sent : ∀ place sent own, T.paired sent → T.paired (T.serializeOut place sent own)

theorem carries (m : Method) : Carries m.type := by
  -- By the lists: an output is in none or carried by all, and all is by computation.
  cases m <;> constructor <;>
    first
    | exact fun _ _ => rfl
    | exact fun _ _ => trivial
    | exact fun _ _ _ => rfl
    | exact fun _ _ _ h => h
    | exact List.forall_mem_nil _
    | exact List.forall_mem_singleton.mpr fun _ _ => rfl
    | exact List.forall_mem_singleton.mpr fun _ _ _ => rfl
    | exact List.forall_mem_cons.mpr ⟨fun _ _ => rfl, List.forall_mem_singleton.mpr fun _ _ => rfl⟩
    | exact List.forall_mem_cons.mpr
        ⟨fun _ _ _ => rfl, List.forall_mem_singleton.mpr fun _ _ _ => rfl⟩

/-- What the constructors leave in the outputs. -/
structure Empty (T : TaskType) (f : T.Fields) : Prop where
  counts : ∀ c ∈ T.counts, c f = 0
  names : ∀ n ∈ T.names, n f = []
  paired : T.paired f

theorem empty_emplace (m : Method) (args : m.type.Args) : Empty m.type (m.type.emplace args) := by
  cases m <;> constructor <;>
    first
    | exact rfl
    | exact trivial
    | exact List.forall_mem_nil _
    | exact List.forall_mem_singleton.mpr rfl
    | exact List.forall_mem_cons.mpr ⟨rfl, List.forall_mem_singleton.mpr rfl⟩

/-! ### Types that merge -/

/-- A merge adds counts, appends names and leaves the rest. -/
structure Adds (T : TaskType) (merge : T.Fields → T.Fields → T.Fields) : Prop where
  counts : ∀ c ∈ T.counts, ∀ replica own, c (merge replica own) = c own + c replica
  names : ∀ n ∈ T.names, ∀ replica own, T.limit own = 0 → T.paired replica →
    n (merge replica own) = n own ++ n replica
  limit : ∀ replica own, T.limit (merge replica own) = T.limit own
  paired : ∀ replica own, T.paired own → T.paired (merge replica own)
  buffer : ∀ replica own, T.buffer (merge replica own) = T.buffer own

theorem tagQuery_append (own : TagQueryFields) (names : List Bytes) :
    (own.append names).totalTagsMatched = own.totalTagsMatched ∧
      (own.append names).maxTags = own.maxTags ∧
      (own.maxTags = 0 ∨ own.results.length + names.length ≤ own.maxTags.toNat →
        (own.append names).results = own.results ++ names) := by
  induction names generalizing own with
  | nil => simp [TagQueryFields.append]
  | cons name rest ih =>
    rw [TagQueryFields.append]
    split
    · rename_i hfull
      refine ⟨rfl, rfl, fun hroom => ?_⟩
      rcases hroom with hzero | hroom
      · exact absurd hzero hfull.1
      · rw [List.length_cons] at hroom
        omega
    · obtain ⟨htotal, hmax, hresults⟩ := ih { own with results := own.results ++ [name] }
      refine ⟨htotal, hmax, fun hroom => ?_⟩
      rw [hresults (hroom.imp_right fun hle => by simp at hle ⊢; omega)]
      simp

theorem blobQuery_append (own : BlobQueryFields) (tagNames blobNames : List Bytes) :
    (own.append tagNames blobNames).totalBlobsMatched = own.totalBlobsMatched ∧
      (own.append tagNames blobNames).maxBlobs = own.maxBlobs ∧
      (own.tagNames.length = own.blobNames.length →
        (own.append tagNames blobNames).tagNames.length =
          (own.append tagNames blobNames).blobNames.length) ∧
      (own.maxBlobs = 0 ∨ own.tagNames.length + tagNames.length ≤ own.maxBlobs.toNat →
        tagNames.length = blobNames.length →
        (own.append tagNames blobNames).tagNames = own.tagNames ++ tagNames ∧
          (own.append tagNames blobNames).blobNames = own.blobNames ++ blobNames) := by
  induction tagNames generalizing own blobNames with
  | nil =>
    refine ⟨by simp [BlobQueryFields.append], by simp [BlobQueryFields.append],
      by simp [BlobQueryFields.append], fun _ hlen => ?_⟩
    have hnil := List.length_eq_zero_iff.mp hlen.symm
    simp [BlobQueryFields.append, hnil]
  | cons tagName tagNames ih =>
    cases blobNames with
    | nil => simp [BlobQueryFields.append]
    | cons blobName blobNames =>
      rw [BlobQueryFields.append]
      split
      · rename_i hfull
        refine ⟨rfl, rfl, id, fun hroom _ => ?_⟩
        rcases hroom with hzero | hroom
        · exact absurd hzero hfull.1
        · rw [List.length_cons] at hroom
          omega
      · obtain ⟨htotal, hmax, hpaired, hnames⟩ := ih
          { own with tagNames := own.tagNames ++ [tagName],
                     blobNames := own.blobNames ++ [blobName] } blobNames
        refine ⟨htotal, hmax, fun hlen => hpaired (by simp [hlen]), fun hroom hlen => ?_⟩
        obtain ⟨htags, hblobs⟩ := hnames
          (hroom.imp_right fun hle => by simp at hle ⊢; omega) (by simpa using hlen)
        rw [htags, hblobs]
        simp

variable {m : Method} {here : Cluster.NodeId} {net : Cluster.Network}

theorem adds {merge : m.type.Fields → m.type.Fields → m.type.Fields}
    (h : m.type.aggregation = .merges merge) : Adds m.type merge := by
  cases m with
  | listTargets =>
    injection h with h
    subst h
    exact {
      counts := List.forall_mem_nil _
      names := List.forall_mem_singleton.mpr fun _ _ _ _ => rfl
      limit := fun _ _ => rfl
      paired := fun _ _ _ => trivial
      buffer := fun _ _ => rfl }
  | getTagSize =>
    injection h with h
    subst h
    exact {
      counts := List.forall_mem_singleton.mpr fun _ _ => rfl
      names := List.forall_mem_nil _
      limit := fun _ _ => rfl
      paired := fun _ _ _ => trivial
      buffer := fun _ _ => rfl }
  | getContainedBlobs =>
    injection h with h
    subst h
    exact {
      counts := List.forall_mem_nil _
      names := List.forall_mem_singleton.mpr fun _ _ _ _ => rfl
      limit := fun _ _ => rfl
      paired := fun _ _ _ => trivial
      buffer := fun _ _ => rfl }
  | tagQuery =>
    injection h with h
    subst h
    exact {
      counts := List.forall_mem_singleton.mpr fun _ _ => (tagQuery_append _ _).1
      names := List.forall_mem_singleton.mpr
        fun _ _ hlimit _ => (tagQuery_append _ _).2.2 (.inl hlimit)
      limit := fun _ _ => (tagQuery_append _ _).2.1
      paired := fun _ _ _ => trivial
      buffer := fun _ _ => rfl }
  | blobQuery =>
    injection h with h
    subst h
    exact {
      counts := List.forall_mem_singleton.mpr fun _ _ => (blobQuery_append _ _ _).1
      names := List.forall_mem_cons.mpr
        ⟨fun _ _ hlimit hpaired => ((blobQuery_append _ _ _).2.2.2 (.inl (by exact hlimit)) hpaired).1,
          List.forall_mem_singleton.mpr fun _ _ hlimit hpaired =>
            ((blobQuery_append _ _ _).2.2.2 (.inl (by exact hlimit)) hpaired).2⟩
      limit := fun _ _ => (blobQuery_append _ _ _).2.1
      paired := fun _ _ hpaired => (blobQuery_append _ _ _).2.2.1 hpaired
      buffer := fun _ _ => rfl }
  | _ => cases h

/-- A type merges or copies. -/
theorem aggregation_of_merges (h : m.merges = true) :
    ∃ merge, m.type.aggregation = .merges merge := by
  cases m <;> first | exact ⟨_, rfl⟩ | exact absurd h (by decide)

theorem aggregation_of_not_merges (h : m.merges = false) :
    m.type.aggregation = .copies := by
  cases m <;> first | rfl | exact absurd h (by decide)

/-! ### Sums -/

/-- What a run of a type that merges adds to its origin. -/
structure Sums (T : TaskType) (origin : Task T.Fields) (leaves : List (Task T.Fields))
    (t : Task T.Fields) : Prop where
  returnCode : t.base.returnCode ≠ 0 ↔
    origin.base.returnCode ≠ 0 ∨ ∃ r ∈ leaves, r.base.returnCode ≠ 0
  counts : ∀ c ∈ T.counts, c t.own = c origin.own + (leaves.map fun r => c r.own).sum
  names : T.limit origin.own = 0 →
    ∀ n ∈ T.names, n t.own = n origin.own ++ leaves.flatMap fun r => n r.own
  limit : T.limit t.own = T.limit origin.own
  paired : T.paired origin.own → T.paired t.own
  taskId : t.base.taskId = origin.base.taskId
  poolQuery : t.base.poolQuery = origin.base.poolQuery
  taskFlags : t.base.taskFlags = origin.base.taskFlags
  buffer : T.buffer t.own = T.buffer origin.own

theorem sums_nil (T : TaskType) (origin : Task T.Fields) : Sums T origin [] origin where
  returnCode := by simp
  counts := by simp
  names := by simp
  limit := rfl
  paired := id
  taskId := rfl
  poolQuery := rfl
  taskFlags := rfl
  buffer := rfl

/-- One more answer, which carries the outputs of the tasks it stands for. -/
theorem Sums.aggregate {T : TaskType} {merge : T.Fields → T.Fields → T.Fields}
    {origin t replica : Task T.Fields} {leaves more : List (Task T.Fields)}
    (h : Sums T origin leaves t) (hmerge : T.aggregation = .merges merge) (hadds : Adds T merge)
    (hcode : origin.base.returnCode = 0 →
      (replica.base.returnCode ≠ 0 ↔ ∃ r ∈ more, r.base.returnCode ≠ 0))
    (hcounts : ∀ c ∈ T.counts, c replica.own = (more.map fun r => c r.own).sum)
    (hnames : T.limit origin.own = 0 →
      ∀ n ∈ T.names, n replica.own = more.flatMap fun r => n r.own)
    (hpaired : T.paired replica.own) :
    Sums T origin (leaves ++ more) (T.aggregate replica t) := by
  have hagg : T.aggregate replica t =
      ⟨replica.base.aggregate t.base, merge replica.own t.own⟩ := by
    unfold TaskType.aggregate
    rw [hmerge]
  rw [hagg]
  refine ⟨?_, ?_, ?_, ?_, ?_, h.taskId, h.poolQuery, h.taskFlags, ?_⟩
  · have hold := h.returnCode
    have hexists : (∃ r ∈ leaves ++ more, r.base.returnCode ≠ 0) ↔
        (∃ r ∈ leaves, r.base.returnCode ≠ 0) ∨ ∃ r ∈ more, r.base.returnCode ≠ 0 := by
      simp only [List.mem_append, or_and_right, exists_or]
    rw [hexists]
    by_cases hzero : origin.base.returnCode = 0
    · rw [← hcode hzero, ← or_assoc, ← hold]
      simp only [Base.aggregate]
      split
      · rename_i hfailed
        simp [hfailed]
      · rename_i hfailed
        simp only [hfailed, or_false]
    · have ht := hold.mpr (.inl hzero)
      simp only [Base.aggregate]
      split
      · rename_i hfailed
        simp [hfailed, hzero]
      · simp [ht, hzero]
  · intro c hc
    rw [hadds.counts c hc, h.counts c hc, hcounts c hc, List.map_append, List.sum_append,
      UInt64.add_assoc]
  · intro hlimit n hn
    rw [hadds.names n hn _ _ (h.limit.trans hlimit) hpaired, h.names hlimit n hn,
      hnames hlimit n hn, List.flatMap_append, List.append_assoc]
  · exact (hadds.limit _ _).trans h.limit
  · exact fun horigin => hadds.paired _ _ (h.paired horigin)
  · exact (hadds.buffer _ _).trans h.buffer

/-- **A type that merges sums the answers**, in whatever order they come and through
whatever nodes. -/
theorem Gathers.sums {merge : m.type.Fields → m.type.Fields → m.type.Fields}
    (hmerge : m.type.aggregation = .merges merge)
    {origin t : Task m.type.Fields} {leaves : List (Task m.type.Fields)}
    (h : Gathers net m.type here origin leaves t) : Sums m.type origin leaves t := by
  have hcarries := carries m
  induction h with
  | start => exact sums_nil _ _
  | @ran here origin leaves t result query netKey i place _ _ _ hpaired ih =>
    refine ih.aggregate hmerge (adds hmerge) ?_ ?_ ?_ ?_
    · intro _
      simp [TaskType.loadOut, Base.serializeOut]
    · intro c hc
      simp [TaskType.loadOut, hcarries.counts_sent c hc]
    · intro _ n hn
      simp [TaskType.loadOut, hcarries.names_sent n hn]
    · exact hcarries.paired_sent _ _ _ hpaired
  | @forwarded here origin leaves t there more result query netKey i place place' _ _ _ _ _ ih ih' =>
    -- The task on the other node starts with no outputs and the origin's code and limit.
    refine ih.aggregate hmerge (adds hmerge) ?_ ?_ ?_ ?_
    · intro hzero
      have hstart : (m.type.received place
          (m.type.copyFor netKey i query here origin)).base.returnCode = 0 := hzero
      have hcode := ih'.returnCode
      rw [hstart] at hcode
      simpa [TaskType.loadOut, Base.serializeOut] using hcode
    · intro c hc
      have hstart := hcarries.counts_null c hc place
        (m.type.copyFor netKey i query here origin).own
      have hsum := ih'.counts c hc
      rw [TaskType.received, hstart, UInt64.zero_add] at hsum
      exact (hcarries.counts_sent c hc _ _ _).trans hsum
    · intro hlimit n hn
      have hlimit' : m.type.limit (m.type.received place
          (m.type.copyFor netKey i query here origin)).own = 0 := by
        rw [TaskType.received, hcarries.limit_sent, TaskType.copyFor, TaskType.copyTask,
          hcarries.copy]
        exact hlimit
      have hstart := hcarries.names_null n hn place
        (m.type.copyFor netKey i query here origin).own
      have hsum := ih'.names hlimit' n hn
      rw [TaskType.received, hstart, List.nil_append] at hsum
      exact (hcarries.names_sent n hn _ _ _).trans hsum
    · exact hcarries.paired_sent _ _ _ (ih'.paired (hcarries.paired_null _ _))

/-! ### Copies -/

/-- Where a type copies, the last answer is what the task is. -/
theorem Gathers.copied (hcopies : m.type.aggregation = .copies)
    {origin t : Task m.type.Fields} {leaves : List (Task m.type.Fields)}
    (h : Gathers net m.type here origin leaves t) (hne : leaves ≠ []) :
    ∃ query ∈ Cluster.resolvePoolQuery net here origin.base.poolQuery,
      Cluster.targetNode net here query ≠ none ∧
        t.base.poolQuery = query.setReturnNode here := by
  have haggregate : ∀ replica own : Task m.type.Fields,
      (m.type.aggregate replica own).base.poolQuery = replica.base.poolQuery := by
    intro replica own
    unfold TaskType.aggregate
    rw [hcopies]
    rfl
  cases h with
  | start => exact absurd rfl hne
  | ran query netKey i place _ hquery htarget _ => exact ⟨query, hquery, htarget, haggregate _ _⟩
  | forwarded query netKey i place place' _ hquery htarget _ _ =>
    exact ⟨query, hquery, htarget, haggregate _ _⟩

/-- The pieces of a range are ranges of fewer containers. -/
theorem rangeCount_splitRange {size off count : UInt32} (hcount : 2 ≤ count.toNat)
    {query : PoolQuery} (h : query ∈ Cluster.splitRange size off count) :
    query.rangeCount ≠ count := by
  have hloop : ∀ (per rem : UInt32) (n : Nat) (i off : UInt32),
      query ∈ Cluster.rangeLoop per rem n i off →
      query.rangeCount = per ∨ (0 < rem.toNat ∧ query.rangeCount = per + 1) := by
    intro per rem n
    induction n with
    | zero =>
      intro i off hmem
      simp [Cluster.rangeLoop] at hmem
    | succ n ih =>
      intro i off hmem
      simp only [Cluster.rangeLoop] at hmem
      by_cases hlt : i < rem
      · have hpos := UInt32.lt_iff_toNat_lt.mp hlt
        rw [if_pos hlt] at hmem
        split at hmem
        · rcases List.mem_cons.mp hmem with hhead | hrest
          · exact .inr ⟨by omega, congrArg PoolQuery.rangeCount hhead⟩
          · exact ih _ _ hrest
        · exact ih _ _ hmem
      · rw [if_neg hlt] at hmem
        split at hmem
        · rcases List.mem_cons.mp hmem with hhead | hrest
          · exact .inl (congrArg PoolQuery.rangeCount hhead)
          · exact ih _ _ hrest
        · exact ih _ _ hmem
  have htwo : 2 ≤ (Cluster.queriesToCreate size count).toNat := by
    rw [Cluster.queriesToCreate]
    split
    · exact hcount
    · rename_i hmany
      rw [UInt32.le_iff_toNat_le, Nat.not_le] at hmany
      exact hmany
  unfold Cluster.splitRange at h
  generalize Cluster.queriesToCreate size count = q at h htwo
  have hper : (count / q).toNat ≤ count.toNat / 2 := by
    rw [UInt32.toNat_div]
    exact Nat.div_le_div_left htwo (by decide)
  intro heq
  rcases hloop _ _ _ _ _ h with hcase | ⟨hrem, hcase⟩
  · rw [← hcase, heq] at hper
    omega
  · have hsucc : (count / q + 1).toNat = (count / q).toNat + 1 := by
      rw [UInt32.toNat_add]
      have hlt := count.toNat_lt
      have hone : (1 : UInt32).toNat = 1 := rfl
      exact Nat.mod_eq_of_lt (by omega)
    have hsame : count.toNat = (count / q).toNat + 1 := by rw [← hsucc, ← hcase, heq]
    -- Half of the count and one more is the count only for two, which two pieces split evenly.
    have hcount2 : count.toNat = 2 := by omega
    have hdiv : count.toNat / q.toNat = 1 := by rw [← UInt32.toNat_div]; omega
    rw [UInt32.toNat_mod] at hrem
    have hsplit := Nat.div_add_mod count.toNat q.toNat
    rw [hdiv] at hsplit
    omega

/-- **A replica is under another query**: no copy that is sent for a range or a broadcast
has the query of the task. -/
theorem resolved_ne {q query : PoolQuery}
    (hmode : q.routingMode = .range ∨ q.routingMode = .broadcast)
    (h : query ∈ Cluster.resolvePoolQuery net here q)
    (htarget : Cluster.targetNode net here query ≠ none) : query.setReturnNode here ≠ q := by
  obtain ⟨inner, hinner, hset⟩ := List.mem_map.mp h
  subst hset
  intro heq
  have hmodes : inner.routingMode = q.routingMode := by
    rw [← heq]
    rfl
  have hcounts : inner.rangeCount = q.rangeCount := by
    rw [← heq]
    rfl
  have hcontainer : ∀ id, inner ∈ Cluster.resolveContainer net here id →
      inner.routingMode = .localMode ∨ inner.routingMode = .directId := by
    intro id hmem
    simp only [Cluster.resolveContainer] at hmem
    split at hmem
    · exact .inl (congrArg PoolQuery.routingMode (List.mem_singleton.mp hmem))
    · split at hmem
      · exact .inl (congrArg PoolQuery.routingMode (List.mem_singleton.mp hmem))
      · exact .inr (congrArg PoolQuery.routingMode (List.mem_singleton.mp hmem))
  have hlocal : ∀ id, inner ∉ Cluster.resolveContainer net here id := by
    intro id hmem
    rcases hcontainer id hmem with hin | hin <;> rcases hmode with hout | hout <;>
      rw [hin, hout] at hmodes <;> exact absurd hmodes (by decide)
  rcases hmode with hrange | hbroadcast
  · simp only [hrange, Cluster.resolveRangeQuery] at hinner
    split at hinner
    · simp at hinner
    split at hinner
    · exact hlocal _ hinner
    · rename_i hzero hone
      have htwo : 2 ≤ q.rangeCount.toNat := by
        rw [← UInt32.toNat_inj] at hzero hone
        simp at hzero hone
        omega
      exact rangeCount_splitRange htwo hinner hcounts
  · rw [hbroadcast] at hmodes
    -- A broadcast is never sent.
    exact htarget (by simp [Cluster.targetNode, PoolQuery.setReturnNode, hmodes])

/-! ### When aggregation merges -/

/-- **Aggregation merges exactly for the five types that say how**, or when there is
nothing to aggregate. -/
theorem merged_iff (net : Cluster.Network) (m : Method) (here : Cluster.NodeId)
    (taskId : TaskId) (poolId : PoolId) (poolQuery : PoolQuery) (args : m.type.Args)
    (leaves : List (Task m.type.Fields)) (t : Task m.type.Fields)
    (hmode : poolQuery.routingMode = .range ∨ poolQuery.routingMode = .broadcast)
    (h : Gathers net m.type here (m.type.create taskId poolId poolQuery args) leaves t) :
    Merged m.type (m.type.create taskId poolId poolQuery args) leaves t ↔
      m.merges = true ∨ leaves = [] := by
  have hempty := empty_emplace m args
  have hof_sums : ∀ {leaves t},
      Sums m.type (m.type.create taskId poolId poolQuery args) leaves t →
      Merged m.type (m.type.create taskId poolId poolQuery args) leaves t := by
    intro leaves t hsums
    refine ⟨?_, ?_, ?_, hsums.taskId, hsums.poolQuery, hsums.taskFlags, hsums.buffer⟩
    · have hzero : (m.type.create taskId poolId poolQuery args).base.returnCode = 0 := rfl
      have hcode := hsums.returnCode
      rw [hzero] at hcode
      simpa using hcode
    · intro c hc
      have hsum := hsums.counts c hc
      rw [TaskType.create, hempty.counts c hc, UInt64.zero_add] at hsum
      exact hsum
    · intro hlimit n hn
      have hsum := hsums.names hlimit n hn
      rw [TaskType.create, hempty.names n hn, List.nil_append] at hsum
      rw [hsum]
  cases hm : m.merges with
  | true =>
    obtain ⟨merge, hmerge⟩ := aggregation_of_merges hm
    simp only [true_or, iff_true]
    exact hof_sums (h.sums hmerge)
  | false =>
    simp only [Bool.false_eq_true, false_or]
    constructor
    · intro hmerged
      by_contra hne
      obtain ⟨query, hquery, htarget, hlast⟩ := h.copied (aggregation_of_not_merges hm) hne
      exact resolved_ne hmode hquery htarget (hlast.symm.trans hmerged.poolQuery)
    · intro hnil
      cases h with
      | start => exact hof_sums (sums_nil _ _)
      | ran => simp at hnil
      | forwarded _ _ _ _ _ _ _ _ _ hmore => simp [hmore] at hnil

/-! ### Two nodes -/

/-- Two nodes with one container each, which cut a range into single containers. -/
def twoNodes : Cluster.Network where
  hosts := [0, 1]
  info n :=
    { numContainers := 2, containers := ⟨[(n, n.toNat)], by simp⟩,
      addressMap := ⟨[(0, 0), (1, 1)], by decide⟩, localContainer := some n.toNat }
  isPlugged _ := false
  neighborhoodSize := 32
  scheduleTask q := q

/-- The query for container `c` alone. -/
def single (c : ContainerId) : PoolQuery := PoolQuery.range c 1

/-- A task of a method, sent to all containers. -/
def broadcastOf (m : Method) (args : m.type.Args) : Task m.type.Fields :=
  m.type.create ⟨1, 2, 3, 0, 0, 0, 0⟩ ⟨200, 0⟩ .broadcast args

/-- Both containers ran a task and left it like this; the answers come in this order. -/
def twoAnswers (m : Method) (args : m.type.Args) (first second : Task m.type.Fields) :
    Task m.type.Fields :=
  let origin := broadcastOf m args
  m.type.aggregate (m.type.loadOut 0 second (m.type.copyFor 4096 1 (single 1) 0 origin))
    (m.type.aggregate (m.type.loadOut 0 first (m.type.copyFor 4096 0 (single 0) 0 origin)) origin)

theorem gathers_twoAnswers (m : Method) (args : m.type.Args) (first second : Task m.type.Fields)
    (hfirst : m.type.paired first.own) (hsecond : m.type.paired second.own) :
    Gathers twoNodes m.type 0 (broadcastOf m args) [first, second]
      (twoAnswers m args first second) :=
  .ran (single 1) 4096 1 0
    (.ran (single 0) 4096 0 0 .start
      (show single 0 ∈ Cluster.resolvePoolQuery twoNodes 0 .broadcast by decide)
      (by decide) hfirst)
    (show single 1 ∈ Cluster.resolvePoolQuery twoNodes 0 .broadcast by decide)
    (by decide) hsecond

/-- What a container leaves: a return code and its own fields. -/
def answer {F : Type} (returnCode : UInt32) (own : F) : Task F :=
  ⟨{ Base.null with returnCode := returnCode }, own⟩

/-- The sizes of a tag on two containers are added. -/
theorem merged_tagSizes :
    Merged Method.getTagSize.type (broadcastOf .getTagSize ⟨1, 1⟩)
      [answer 0 (⟨⟨1, 1⟩, 10⟩ : GetTagSizeFields), answer 1 (⟨⟨1, 1⟩, 32⟩ : GetTagSizeFields)]
      (twoAnswers .getTagSize ⟨1, 1⟩ (answer 0 (⟨⟨1, 1⟩, 10⟩ : GetTagSizeFields))
        (answer 1 (⟨⟨1, 1⟩, 32⟩ : GetTagSizeFields))) :=
  (merged_iff twoNodes .getTagSize 0 ⟨1, 2, 3, 0, 0, 0, 0⟩ ⟨200, 0⟩ .broadcast ⟨1, 1⟩ _ _ (.inr rfl)
    (gathers_twoAnswers .getTagSize ⟨1, 1⟩ (answer 0 (⟨⟨1, 1⟩, 10⟩ : GetTagSizeFields))
      (answer 1 (⟨⟨1, 1⟩, 32⟩ : GetTagSizeFields)) trivial trivial)).mpr (.inl rfl)

/-- A metadata flush that fails on the container that answers first: the task ends with
code 0, the second container's count and the query of its replica. -/
theorem failure_overwritten :
    let t := twoAnswers .flushMetadata () (answer 3 (⟨5⟩ : FlushMetadataFields))
      (answer 0 (⟨7⟩ : FlushMetadataFields))
    Gathers twoNodes Method.flushMetadata.type 0 (broadcastOf .flushMetadata ())
        [answer 3 (⟨5⟩ : FlushMetadataFields), answer 0 (⟨7⟩ : FlushMetadataFields)] t ∧
      t.base.returnCode = 0 ∧ t.own = (⟨7⟩ : FlushMetadataFields) ∧
      t.base.poolQuery = single 1 ∧ t.base.taskId.netKey = 4096 ∧
      ¬Merged Method.flushMetadata.type (broadcastOf .flushMetadata ())
        [answer 3 (⟨5⟩ : FlushMetadataFields), answer 0 (⟨7⟩ : FlushMetadataFields)] t := by
  refine ⟨gathers_twoAnswers _ _ _ _ trivial trivial, rfl, rfl, rfl, rfl, fun hmerged => ?_⟩
  have hcode : (0 : UInt32) ≠ 0 := hmerged.returnCode.mpr ⟨_, List.mem_cons_self, by decide⟩
  exact hcode rfl

end IowarpCore.Cte.Wire
