/-
`GetOrCreatePool` over every interleaving of such tasks.

A task touches one entry of the table, the one of the id it asks for, and only if that
entry is not there.  It either ends before its await with the table as it found it, or
waits with its own entry published (`reaches_getOrCreatePool`); what it does after the await
is to leave the entry or to remove it (`reaches_finishCreate`).  So two tasks that wait
never have the same id, and as a name is looked for and published without an await
in between, no two pools ever share a name (`Sound`, `sound_step`).

The return code is another matter.  Most of the ways out of `CreatePool` leave it at 0:
parameters that do not pass, a null id, an id that another pool has, a module that gives no
container or throws.  `Honoured` is when none of these is taken, and
`getOrCreatePool_honest_iff` says that 0 is a lie in exactly the other cases.
-/
import IowarpCore.Lib.Along
import IowarpCore.Runtime.PoolManager

namespace IowarpCore
namespace Pools

open Cluster (Container)

variable {δ : Type} {S : CreateCall → δ → UInt32 → δ → Prop}

/-- No two pools share a name, and no pool has the null id or the empty name. -/
structure WellFormed (table : Table) : Prop where
  names : ∀ id id' info info', (id, info) ∈ table.entries → (id', info') ∈ table.entries →
    info.poolName = info'.poolName → id = id'
  ids : ∀ id info, (id, info) ∈ table.entries → id.isNull = false
  named : ∀ id info, (id, info) ∈ table.entries → info.poolName ≠ []

/-- The table has a pool of this name under this id. -/
def Registered (table : Table) (poolId : PoolId) (poolName : Bytes) : Prop :=
  ∃ info, table.find? poolId = some info ∧ info.poolName = poolName

/-- When a task can keep what a return code of 0 promises: the very pool is there, or the
parameters pass and either the name is there or the id is usable and the module gives
a container. -/
def Honoured (r : Request) (table : Table) : Prop :=
  Registered table r.task.newPoolId r.task.poolName ∨
    (validatePoolParams r.env r.task.chimodName r.task.poolName = true ∧
      ((∃ id, Registered table id r.task.poolName) ∨
        (r.task.newPoolId.isNull = false ∧ table.find? r.task.newPoolId = none ∧
          ∃ container, makeContainer r.env { r.task with returnCode := 0 } = .made container)))

/-! ### The table -/

variable {id : PoolId} {name : Bytes} {table table' : Table} {env : Surroundings}
  {task result : CreateTask} {th : Thread} {r : Request} {p : Node δ} {loose : List CreateCall}
  {w : World Table δ} {k : List UInt32 → PoolTask CreateTask} {ok : CreateCall → UInt32 → Bool}
  {post pre : List (Request × Thread)} {sent : List (CreateCall × Option UInt32)} {n : Nat}

theorem findPoolByName_of_registered (h : WellFormed table) (hreg : Registered table id name) : findPoolByName table name = id := by
  obtain ⟨info, hinfo, hname⟩ := hreg
  have hmem := AMap.find?_eq_some_iff.mp hinfo
  unfold findPoolByName
  cases hfind : table.entries.find? fun e => e.2.poolName = name with
  | none =>
    have hnone := List.find?_eq_none.mp hfind (id, info) hmem
    simp [hname] at hnone
  | some e =>
    have he : e.2.poolName = name := by simpa using List.find?_some hfind
    exact h.names e.1 id e.2 info (List.mem_of_find?_eq_some hfind) hmem (he.trans hname.symm)

theorem registered_findPoolByName (h : (findPoolByName table name).isNull = false) :
    Registered table (findPoolByName table name) name := by
  unfold findPoolByName at h ⊢
  cases hfind : table.entries.find? fun e => e.2.poolName = name with
  | none =>
    rw [hfind] at h
    simp [UniqueId.null, UniqueId.isNull] at h
  | some e =>
    refine ⟨e.2, AMap.find?_eq_some_iff.mpr (List.mem_of_find?_eq_some hfind), ?_⟩
    simpa using List.find?_some hfind

/-- In a well formed table a name is found if and only if a pool has it. -/
theorem findPoolByName_isNull (h : WellFormed table) :
    (findPoolByName table name).isNull = true ↔ ∀ id, ¬Registered table id name := by
  constructor
  · intro hnull id hreg
    rw [findPoolByName_of_registered h hreg] at hnull
    obtain ⟨info, hinfo, _⟩ := hreg
    rw [h.ids id info (AMap.find?_eq_some_iff.mp hinfo)] at hnull
    simp at hnull
  · intro hnone
    rw [← Bool.not_eq_false]
    intro hfound
    exact hnone _ (registered_findPoolByName hfound)

/-- One more pool, under an id that is not null and a name that no other pool has. -/
theorem WellFormed.of_erase {info : PoolInfo}
    (h : WellFormed (table.erase id)) (hinfo : table.find? id = some info)
    (hid : id.isNull = false) (hname : info.poolName ≠ [])
    (hfree : ∀ id', ¬Registered (table.erase id) id' info.poolName) : WellFormed table := by
  have hcases : ∀ id' info', (id', info') ∈ table.entries →
      (id' = id ∧ info' = info) ∨ (id', info') ∈ (table.erase id).entries := by
    intro id' info' hmem
    by_cases hid' : id' = id
    · subst hid'
      exact Or.inl ⟨rfl, table.mem_unique hmem (AMap.find?_eq_some_iff.mp hinfo)⟩
    · exact Or.inr (AMap.mem_erase.mpr ⟨hid', hmem⟩)
  have hother : ∀ id' info', (id', info') ∈ (table.erase id).entries →
      info'.poolName ≠ info.poolName :=
    fun id' info' hmem heq => hfree id' ⟨info', AMap.find?_eq_some_iff.mpr hmem, heq⟩
  constructor
  · intro id₁ id₂ info₁ info₂ h₁ h₂ heq
    rcases hcases _ _ h₁ with ⟨hid₁, hinfo₁⟩ | h₁
    · rcases hcases _ _ h₂ with ⟨hid₂, _⟩ | h₂
      · rw [hid₁, hid₂]
      · rw [hinfo₁] at heq
        exact absurd heq.symm (hother _ _ h₂)
    · rcases hcases _ _ h₂ with ⟨_, hinfo₂⟩ | h₂
      · rw [hinfo₂] at heq
        exact absurd heq (hother _ _ h₁)
      · exact h.names _ _ _ _ h₁ h₂ heq
  · intro id' info' hmem
    rcases hcases _ _ hmem with ⟨hid', _⟩ | hmem
    · rw [hid']
      exact hid
    · exact h.ids _ _ hmem
  · intro id' info' hmem
    rcases hcases _ _ hmem with ⟨_, hinfo'⟩ | hmem
    · rw [hinfo']
      exact hname
    · exact h.named _ _ hmem

theorem WellFormed.erase (h : WellFormed table) (id : PoolId) :
    WellFormed (table.erase id) := by
  constructor
  · intro id₁ id₂ info₁ info₂ h₁ h₂
    exact h.names _ _ _ _ (AMap.mem_erase.mp h₁).2 (AMap.mem_erase.mp h₂).2
  · intro id' info' hmem
    exact h.ids _ _ (AMap.mem_erase.mp hmem).2
  · intro id' info' hmem
    exact h.named _ _ (AMap.mem_erase.mp hmem).2

/-- Unregistering a container of a pool that is then erased. -/
theorem erase_unregisterContainer (table : Table) (id : PoolId) (containerId : ContainerId) :
    ((unregisterContainer table id containerId).2).erase id = table.erase id := by
  unfold unregisterContainer
  cases table.find? id with
  | none => rfl
  | some info =>
    dsimp only
    cases info.containers.find? containerId with
    | none => rfl
    | some removed => exact AMap.erase_insertOrAssign table id _

/-! ### What a task does between its awaits -/

/-- The metadata published with its address map. -/
theorem initAddressMap_updatePoolMetadata (env : Surroundings) (task : CreateTask)
    (table : Table) :
    initAddressMap (updatePoolMetadata table task.newPoolId (newPoolInfo env task))
        task.newPoolId env.numHosts =
      (table.insertOrAssign task.newPoolId (newPoolInfo env task)).insertOrAssign task.newPoolId
        { newPoolInfo env task with addressMap := addressesFrom env.numHosts } := by
  rw [initAddressMap, updatePoolMetadata, AMap.find?_insertOrAssign_self]

theorem erase_of_free (h : table.find? id = none) :
    table.erase id = table :=
  AMap.ext_entries (AMap.erase_entries_of_find_none h)

/-- A task at its await: its own pool is published and the rest of the table is as it was. -/
structure Published (env : Surroundings) (task : CreateTask) (table : Table)
    (th : Thread) (table' : Table) : Prop where
  waits : ∃ container, makeContainer env task = .made container ∧
    th = .waiting [(⟨container, task⟩, none)] (fun _ _ => true)
      fun rs => finishCreate env task (rs.headD default)
  there : Registered table' task.newPoolId task.poolName
  rest : table'.erase task.newPoolId = table

/-- What the pool manager does with a container that is not made. -/
theorem erase_published (hfree : table.find? task.newPoolId = none) :
    (initAddressMap (updatePoolMetadata table task.newPoolId (newPoolInfo env task))
        task.newPoolId env.numHosts).erase task.newPoolId = table := by
  rw [initAddressMap_updatePoolMetadata, AMap.erase_insertOrAssign, AMap.erase_insertOrAssign,
    erase_of_free hfree]

/-- From the publication of the metadata to the await or the end. -/
theorem reaches_createLocalPool (hfree : table.find? task.newPoolId = none)
    (hmanager : env.moduleManager = true)
    (h : Co.Reaches (createLocalPool env task) table th table') :
    (th = .done task ∧ table' = table ∧ ∀ container, makeContainer env task ≠ .made container) ∨
      Published env task table th table' := by
  simp only [createLocalPool, hmanager, Co.bind_eq, Co.pure_eq, Co.reaches_modify_bind,
    Bool.not_true, Bool.false_eq_true, if_false] at h
  cases hmade : makeContainer env task with
  | threw container =>
    rw [hmade] at h
    refine Or.inl ?_
    cases container with
    | none =>
      simp only [Option.isSome_none, Bool.false_eq_true, if_false, Co.reaches_modify_bind,
        Co.reaches_ret, erase_published hfree] at h
      exact ⟨h.1, h.2, by simp⟩
    | some container =>
      simp only [Option.isSome_some, if_true, Co.reaches_modify_bind, Co.reaches_ret,
        erase_unregisterContainer, erase_published hfree] at h
      exact ⟨h.1, h.2, by simp⟩
  | noContainer =>
    rw [hmade] at h
    simp only [Co.reaches_modify_bind, Co.reaches_ret, erase_published hfree] at h
    exact Or.inl ⟨h.1, h.2, by simp⟩
  | made container =>
    rw [hmade, initAddressMap_updatePoolMetadata] at h
    refine Or.inr ?_
    simp only [Co.reaches_read_bind, Co.reaches_modify_bind, registerContainer,
      AMap.find?_insertOrAssign_self, Bool.not_true, Bool.false_eq_true, if_false,
      Co.reaches_call_bind] at h
    obtain ⟨hth, htable⟩ := h
    refine ⟨⟨container, hmade, hth⟩, ?_, ?_⟩
    · rw [htable, Registered, AMap.find?_insertOrAssign_self]
      exact ⟨_, rfl, rfl⟩
    · rw [htable, AMap.erase_insertOrAssign, AMap.erase_insertOrAssign,
        AMap.erase_insertOrAssign, erase_of_free hfree]

/-- How a task starts: it ends with the table as it found it, or waits with its pool
published. -/
inductive Begins (r : Request) (table : Table) (th : Thread)
    (table' : Table) : Prop
  | ends (result : CreateTask) (hth : th = .done result) (hcode : result.returnCode = 0)
      (htable : table' = table)
      (hhonest : Registered table result.newPoolId r.task.poolName ↔ Honoured r table)
  | waits (hid : r.task.newPoolId.isNull = false) (hname : r.task.poolName ≠ [])
      (hfree : table.find? r.task.newPoolId = none)
      (hnew : ∀ id, ¬Registered table id r.task.poolName) (hhonoured : Honoured r table)
      (hpub : Published r.env { r.task with returnCode := 0 } table th table')

theorem validatePoolParams_iff {chimodName poolName : Bytes}
    (h : validatePoolParams env chimodName poolName = true) :
    poolName ≠ [] ∧ env.moduleManager = true := by
  unfold validatePoolParams at h
  split at h
  · simp at h
  · rename_i hempty
    split at h
    · simp at h
    · rename_i hmanager
      simp only [List.isEmpty_iff, Bool.or_eq_true, not_or, Bool.not_eq_true'] at hempty hmanager
      exact ⟨hempty.2, by simpa using hmanager⟩

theorem reaches_getOrCreatePool (hwf : WellFormed table)
    (h : Co.Reaches r.prog table th table') : Begins r table th table' := by
  simp only [Request.prog, getOrCreatePool, createPool] at h
  by_cases hvalid : validatePoolParams r.env r.task.chimodName r.task.poolName = true
  · obtain ⟨hname, hmanager⟩ := validatePoolParams_iff hvalid
    simp only [hvalid, Bool.not_true, Bool.false_eq_true, if_false, Co.bind_eq,
      Co.reaches_read_bind] at h
    by_cases hfound : (findPoolByName table r.task.poolName).isNull = true
    · have hnew := (findPoolByName_isNull hwf).mp hfound
      simp only [hfound, Bool.not_true, Bool.false_eq_true, if_false] at h
      by_cases hnull : r.task.newPoolId.isNull = true
      · rw [if_pos hnull] at h
        refine .ends _ h.1 rfl h.2 ⟨fun hreg => absurd hreg (hnew _), ?_⟩
        rintro (hreg | ⟨_, ⟨id, hreg⟩ | ⟨hid, _⟩⟩)
        · exact absurd hreg (hnew _)
        · exact absurd hreg (hnew id)
        · rw [hnull] at hid
          simp at hid
      · rw [if_neg hnull] at h
        by_cases htaken : table.find? r.task.newPoolId = none
        · have hhas : hasPool table r.task.newPoolId = false := by
            rw [hasPool, AMap.contains, htaken]
            rfl
          simp only [hhas, Bool.false_eq_true, if_false] at h
          rcases @reaches_createLocalPool table table' r.env { r.task with returnCode := 0 } th
            htaken hmanager h with ⟨hth, htable, hnot⟩ | hpub
          · refine .ends _ hth rfl htable ⟨fun hreg => absurd hreg (hnew _), ?_⟩
            rintro (hreg | ⟨_, ⟨id, hreg⟩ | ⟨_, _, container, hmade⟩⟩)
            · exact absurd hreg (hnew _)
            · exact absurd hreg (hnew id)
            · exact absurd hmade (hnot container)
          · have hid : r.task.newPoolId.isNull = false := by simpa using hnull
            obtain ⟨container, hmade, _⟩ := hpub.waits
            exact .waits hid hname htaken hnew
              (Or.inr ⟨hvalid, Or.inr ⟨hid, htaken, container, hmade⟩⟩) hpub
        · have hhas : hasPool table r.task.newPoolId = true := by
            rw [hasPool, AMap.contains, Option.isSome_iff_ne_none]
            exact htaken
          rw [if_pos hhas] at h
          refine .ends _ h.1 rfl h.2 ⟨fun hreg => absurd hreg (hnew _), ?_⟩
          rintro (hreg | ⟨_, ⟨id, hreg⟩ | ⟨_, hfree, _⟩⟩)
          · exact absurd hreg (hnew _)
          · exact absurd hreg (hnew id)
          · exact absurd hfree htaken
    · have hreg := registered_findPoolByName (Bool.not_eq_true _ ▸ hfound)
      simp only [hfound, Bool.not_false, if_true] at h
      refine .ends _ h.1 rfl h.2 ⟨fun _ => Or.inr ⟨hvalid, Or.inl ⟨_, hreg⟩⟩, fun _ => hreg⟩
  · simp only [hvalid, Bool.not_false, if_true] at h
    refine .ends _ h.1 rfl h.2 ⟨fun hreg => Or.inl hreg, ?_⟩
    rintro (hreg | ⟨hvalid', _⟩)
    · exact hreg
    · exact absurd hvalid' hvalid

theorem reaches_finishCreate {rc : UInt32}
    (h : Co.Reaches (finishCreate env task rc) table th table') :
    th = .done { task with returnCode := rc } ∧
      table' = if rc = 0 then table else table.erase task.newPoolId := by
  unfold finishCreate at h
  by_cases hrc : rc = 0
  · rw [if_neg (not_not.mpr hrc)] at h
    rw [if_pos hrc]
    exact h
  · rw [if_pos hrc] at h
    rw [if_neg hrc]
    simp only [Co.bind_eq, Co.pure_eq, Co.reaches_modify_bind, Co.reaches_ret,
      erase_unregisterContainer] at h
    exact h

/-! ### Many tasks -/

/-- A node with no pool and no task, as `ServerInit` starts it. -/
def fresh (d : δ) : Node δ := ⟨⟨AMap.empty, d⟩, [], []⟩

/-- The id a waiting task creates its pool under. -/
def createdId : Request × Thread → Option PoolId
  | (r, .waiting _ _ _) => some r.task.newPoolId
  | (_, .done _) => none

/-- What holds of a node at all times: the table is well formed, and every task that waits
has published its own pool. -/
structure Sound (p : Node δ) : Prop where
  table : WellFormed p.world.c
  published : ∀ r sent ok k, (r, .waiting sent ok k) ∈ p.threads →
    Registered p.world.c r.task.newPoolId r.task.poolName ∧
      k = fun rs => finishCreate r.env { r.task with returnCode := 0 } (rs.headD default)
  distinct : (p.threads.filterMap createdId).Nodup

theorem sound_fresh (d : δ) : Sound (fresh d) := by
  refine ⟨⟨?_, ?_, ?_⟩, ?_, ?_⟩ <;> simp [fresh, AMap.empty]

/-- The ids of the tasks that wait are in the table. -/
theorem Sound.created (h : Sound p)
    (hid : id ∈ p.threads.filterMap createdId) : p.world.c.find? id ≠ none := by
  obtain ⟨⟨r, th⟩, hmem, hcreated⟩ := List.mem_filterMap.mp hid
  cases th with
  | done a => simp [createdId] at hcreated
  | waiting sent ok k =>
    obtain ⟨⟨info, hinfo, _⟩, _⟩ := h.published r sent ok k hmem
    simp only [createdId, Option.some.injEq] at hcreated
    rw [← hcreated, hinfo]
    simp

theorem find?_of_erase_eq {id' : PoolId} (h : table'.erase id = table)
    (hne : id' ≠ id) : table'.find? id' = table.find? id' := by
  rw [← h, AMap.find?_erase_of_ne _ hne]

theorem registered_congr (h : table'.find? id = table.find? id) (hreg : Registered table id name) :
    Registered table' id name := by
  obtain ⟨info, hinfo, hname⟩ := hreg
  exact ⟨info, h.trans hinfo, hname⟩

/-- A table with one more pool, published by a task that begins to wait. -/
theorem Published.wellFormed (hpub : Published env task table th table')
    (hwf : WellFormed table) (hid : task.newPoolId.isNull = false) (hname : task.poolName ≠ [])
    (hnew : ∀ id, ¬Registered table id task.poolName) : WellFormed table' := by
  obtain ⟨info, hinfo, hinfoName⟩ := hpub.there
  refine WellFormed.of_erase ?_ hinfo hid (hinfoName ▸ hname) ?_
  · rw [hpub.rest]
    exact hwf
  · rw [hpub.rest, hinfoName]
    exact hnew

theorem sound_start {ths : List (Request × Thread)} (h : Sound ⟨w, ths, loose⟩) (hr : Co.Reaches r.prog w.c th table') :
    Sound ⟨⟨table', w.d⟩, ths ++ [(r, th)], loose⟩ := by
  cases reaches_getOrCreatePool h.table hr with
  | ends result hth _ htable _ =>
    subst hth htable
    refine ⟨h.table, ?_, ?_⟩
    · intro r' sent ok k hmem
      rcases List.mem_append.mp hmem with hmem | hmem
      · exact h.published r' sent ok k hmem
      · simp at hmem
    · simpa [List.filterMap_append, List.filterMap_cons, createdId] using h.distinct
  | waits hid hname hfree hnew _ hpub =>
    refine ⟨hpub.wellFormed h.table hid hname hnew, ?_, ?_⟩
    · intro r' sent ok k hmem
      rcases List.mem_append.mp hmem with hmem | hmem
      · obtain ⟨hreg, hk⟩ := h.published r' sent ok k hmem
        -- another task waits under another id
        have hne : r'.task.newPoolId ≠ r.task.newPoolId := by
          intro heq
          obtain ⟨info, hinfo, _⟩ := hreg
          rw [heq] at hinfo
          exact absurd (hfree.symm.trans hinfo) (by simp)
        exact ⟨registered_congr (find?_of_erase_eq hpub.rest hne) hreg, hk⟩
      · obtain ⟨container, _, hth⟩ := hpub.waits
        rw [hth] at hmem
        simp only [List.mem_singleton, Prod.mk.injEq, Co.Thread.waiting.injEq] at hmem
        obtain ⟨hr', _, _, hk⟩ := hmem
        rw [hr']
        exact ⟨hpub.there, hk⟩
    · obtain ⟨container, _, hth⟩ := hpub.waits
      rw [hth]
      simp only [List.filterMap_append, List.filterMap_cons, createdId, List.filterMap_nil]
      refine List.nodup_append.mpr ⟨h.distinct, by simp, ?_⟩
      intro a ha b hb hab
      rw [List.mem_singleton] at hb
      rw [hab, hb] at ha
      exact h.created ha hfree

theorem sound_serve {sent' : List (CreateCall × Option UInt32)} {d' : δ}
    (h : Sound ⟨w, pre ++ (r, .waiting sent ok k) :: post, loose⟩) :
    Sound ⟨⟨w.c, d'⟩, pre ++ (r, .waiting sent' ok k) :: post, loose⟩ := by
  refine ⟨h.table, ?_, ?_⟩
  · intro r' sent'' ok' k' hmem
    rcases List.mem_append.mp hmem with hmem | hmem
    · exact h.published r' sent'' ok' k' (List.mem_append_left _ hmem)
    · rcases List.mem_cons.mp hmem with heq | hmem
      · simp only [Prod.mk.injEq, Co.Thread.waiting.injEq] at heq
        obtain ⟨hr, _, _, hk⟩ := heq
        rw [hr, hk]
        exact h.published r sent ok k (by simp)
      · exact h.published r' sent'' ok' k' (List.mem_append_right _ (List.mem_cons_of_mem _ hmem))
  · have hdistinct := h.distinct
    simp only [List.filterMap_append, List.filterMap_cons, createdId] at hdistinct ⊢
    exact hdistinct

/-- What a task does when it goes on: it ends, and a code that is not 0 takes its pool
with it. -/
theorem Sound.resumed {rs : List UInt32}
    (h : Sound ⟨w, pre ++ (r, .waiting sent ok k) :: post, loose⟩)
    (hr : Co.Reaches (k rs) w.c th table') :
    ∃ rc, th = .done { r.task with returnCode := rc } ∧
      table' = if rc = 0 then w.c else w.c.erase r.task.newPoolId := by
  obtain ⟨_, hk⟩ := h.published r sent ok k (by simp)
  rw [hk] at hr
  exact ⟨_, reaches_finishCreate hr⟩

theorem sound_resume {loose' : List CreateCall} {rs : List UInt32}
    (h : Sound ⟨w, pre ++ (r, .waiting sent ok k) :: post, loose⟩)
    (hr : Co.Reaches (k rs) w.c th table') :
    Sound ⟨⟨table', w.d⟩, pre ++ (r, th) :: post, loose'⟩ := by
  obtain ⟨rc, hth, htable⟩ := h.resumed hr
  have hdistinct := h.distinct
  simp only [List.filterMap_append, List.filterMap_cons, createdId] at hdistinct
  have hperm := List.perm_middle.nodup_iff.mp hdistinct
  obtain ⟨hother, hrest⟩ := List.nodup_cons.mp hperm
  subst hth
  refine ⟨?_, ?_, ?_⟩
  · show WellFormed table'
    rw [htable]
    split
    · exact h.table
    · exact h.table.erase _
  · intro r' sent' ok' k' hmem
    have hmem' : (r', Co.Thread.waiting sent' ok' k') ∈ pre ++ post := by simpa using hmem
    have hold : (r', Co.Thread.waiting sent' ok' k') ∈
        pre ++ (r, .waiting sent ok k) :: post := by
      rcases List.mem_append.mp hmem' with hmem' | hmem'
      · exact List.mem_append_left _ hmem'
      · exact List.mem_append_right _ (List.mem_cons_of_mem _ hmem')
    obtain ⟨hreg, hk⟩ := h.published r' sent' ok' k' hold
    refine ⟨registered_congr ?_ hreg, hk⟩
    have hne : r'.task.newPoolId ≠ r.task.newPoolId := by
      intro heq
      apply hother
      rw [← heq, ← List.filterMap_append]
      exact List.mem_filterMap.mpr ⟨_, hmem', rfl⟩
    show table'.find? _ = _
    rw [htable]
    split
    · rfl
    · exact AMap.find?_erase_of_ne _ hne
  · simpa [List.filterMap_append, List.filterMap_cons, createdId] using hrest

theorem sound_step {op : Op} {p' : Node δ} (h : Sound p) (hstep : Step S op p p') :
    Sound p' := by
  cases hstep with
  | move hmove =>
    cases hmove with
    | start hr => exact sound_start h hr
    | serve _ => exact sound_serve h
    | resume _ hr => exact sound_resume h hr
    | settle _ => exact ⟨h.table, h.published, h.distinct⟩
  | destroy hidle =>
    refine ⟨h.table.erase _, ?_, h.distinct⟩
    intro r sent ok k hmem
    obtain ⟨task, hdone⟩ := hidle _ hmem
    simp at hdone

theorem soundNode_of_run {ops : List Op} {d : δ} (h : Along (Step S) ops (fresh d) p) : Sound p :=
  h.invariant (fun _ _ _ _ hs hstep => sound_step hs hstep) (sound_fresh d)

/-! ### One task from its start to its end -/

/-- Two lists that differ in one place agree in the others. -/
theorem getElem?_other {α : Type} {pre post : List α} {a b : α} (h : n ≠ pre.length) :
    (pre ++ a :: post)[n]? = (pre ++ b :: post)[n]? := by
  by_cases hlt : n < pre.length
  · rw [List.getElem?_append_left hlt, List.getElem?_append_left hlt]
  · have hle : pre.length ≤ n := Nat.le_of_not_lt hlt
    have hpos : n - pre.length ≠ 0 := by omega
    rw [List.getElem?_append_right hle, List.getElem?_append_right hle, List.getElem?_cons,
      List.getElem?_cons, if_neg hpos, if_neg hpos]

/-- A task that has ended stays as it is. -/
theorem done_step {op : Op} {p' : Node δ}
    (hstep : Step S op p p') (h : p.threads[n]? = some (r, .done result)) :
    p'.threads[n]? = some (r, .done result) := by
  cases hstep with
  | move hmove =>
    cases hmove with
    | start _ =>
      dsimp only at h ⊢
      rw [List.getElem?_append_left (List.getElem?_eq_some_iff.mp h).1]
      exact h
    | serve _ =>
      refine (getElem?_other ?_).trans h
      intro heq
      subst heq
      simp at h
    | resume _ _ =>
      refine (getElem?_other ?_).trans h
      intro heq
      subst heq
      simp at h
    | settle _ => exact h
  | destroy _ => exact h

/-- The task that the step from `p₀` to `p₁` started returns `result` in the step from `q`
to `q'`. -/
inductive Returns (S : CreateCall → δ → UInt32 → δ → Prop) (r : Request) (p₀ p₁ : Node δ)
    (result : CreateTask) : Node δ → Node δ → Prop
  | atOnce : p₁.threads[p₀.threads.length]? = some (r, .done result) →
      Returns S r p₀ p₁ result p₀ p₁
  | later {ops : List Op} {q q' : Node δ} : Along (Step S) ops p₁ q →
      Step S (.move (.resume p₀.threads.length)) q q' →
      q'.threads[p₀.threads.length]? = some (r, .done result) → Returns S r p₀ p₁ result q q'

/-- A task that ended at its start is not resumed. -/
theorem Returns.of_done {p₀ p₁ q q' : Node δ} {result' : CreateTask}
    (hdone : p₁.threads[p₀.threads.length]? = some (r, .done result'))
    (h : Returns S r p₀ p₁ result q q') : result = result' ∧ q' = p₁ := by
  cases h with
  | atOnce h =>
    rw [hdone] at h
    simp only [Option.some.injEq, Prod.mk.injEq, Co.Thread.done.injEq, true_and] at h
    exact ⟨h.symm, rfl⟩
  | later hrun hstep _ =>
    have hq := hrun.invariant
      (I := fun p => p.threads[p₀.threads.length]? = some (r, .done result'))
      (fun _ _ _ _ hp hstep => done_step hstep hp) hdone
    exfalso
    generalize p₀.threads.length = n at hstep hq
    cases hstep with
    | move hmove =>
      cases hmove with
      | resume _ _ => simp at hq

/-- A task that is resumed ends, with its pool kept or removed. -/
theorem Sound.resume_cases {q q' : Node δ} (h : Sound q) (hstep : Step S (.move (.resume n)) q q')
    (hend : q'.threads[n]? = some (r, .done result)) :
    result.newPoolId = r.task.newPoolId ∧
      Registered q.world.c r.task.newPoolId r.task.poolName ∧
      q'.world.c =
        if result.returnCode = 0 then q.world.c else q.world.c.erase r.task.newPoolId := by
  cases hstep with
  | move hmove =>
    cases hmove with
    | @resume w pre post loose r' sent rs ok k th table' _ hr =>
      obtain ⟨rc, hth, htable⟩ := h.resumed hr
      obtain ⟨hreg, _⟩ := h.published r' sent ok k (by simp)
      subst hth
      simp only [List.getElem?_append_right (Nat.le_refl _), Nat.sub_self,
        List.getElem?_cons_zero, Option.some.injEq, Prod.mk.injEq,
        Co.Thread.done.injEq] at hend
      obtain ⟨hr', hresult⟩ := hend
      subst hr' hresult
      exact ⟨rfl, hreg, htable⟩

/-- **A return code of 0 is true exactly when the request can be honoured.**  In every state
that interleaved tasks reach, no two pools share a name; a task returns 0 with the pool it
names registered if and only if its request was `Honoured` when it started; and a task that
returns anything else finds and leaves its id free and changes no other pool. -/
theorem getOrCreatePool_honest_iff {ops : List Op} {d : δ} {p₀ : Node δ}
    (hrun : Along (Step S) ops (fresh d) p₀) :
    WellFormed p₀.world.c ∧
      ∀ r p₁ result q q', Step S (.move (.start r)) p₀ p₁ → Returns S r p₀ p₁ result q q' →
        ((result.returnCode = 0 →
            Registered q'.world.c result.newPoolId r.task.poolName) ↔ Honoured r p₀.world.c) ∧
          (result.returnCode ≠ 0 →
            p₀.world.c.find? r.task.newPoolId = none ∧
              q'.world.c.find? r.task.newPoolId = none ∧
              ∀ id, id ≠ r.task.newPoolId → p₁.world.c.find? id = p₀.world.c.find? id ∧
                q'.world.c.find? id = q.world.c.find? id) := by
  have hsound := soundNode_of_run hrun
  refine ⟨hsound.table, ?_⟩
  intro r p₁ result q q' hstart hret
  have hsound₁ := sound_step hsound hstart
  cases hstart with
  | move hmove =>
    cases hmove with
    | @start w ths loose _ th table' hr =>
      cases reaches_getOrCreatePool hsound.table hr with
      | ends result' hth hcode htable hhonest =>
        subst hth htable
        have hdone : (ths ++ [(r, Co.Thread.done result')])[ths.length]? =
            some (r, .done result') := by simp
        obtain ⟨hresult, hq'⟩ := Returns.of_done hdone hret
        rw [hresult, hq']
        exact ⟨⟨fun h => hhonest.mp (h hcode), fun h _ => hhonest.mpr h⟩,
          fun h => absurd hcode h⟩
      | waits _ _ hfree _ hhonoured hpub =>
        obtain ⟨container, _, hth⟩ := hpub.waits
        subst hth
        cases hret with
        | atOnce h => simp at h
        | later hrun' hstep hend =>
          have hsoundq := hrun'.invariant (fun _ _ _ _ hs hstep => sound_step hs hstep)
            hsound₁
          obtain ⟨hid, hreg, htable⟩ := hsoundq.resume_cases hstep hend
          refine ⟨⟨fun _ => hhonoured, ?_⟩, ?_⟩
          · intro _ hcode
            rw [hid, htable, if_pos hcode]
            exact hreg
          · intro hcode
            rw [htable, if_neg hcode]
            refine ⟨hfree, AMap.find?_erase_self _ _, ?_⟩
            intro id hne
            exact ⟨find?_of_erase_eq hpub.rest hne, AMap.find?_erase_of_ne _ hne⟩

/-- A node of a cluster of one with a single module, called "m", that gives container 7. -/
def oneModule : Surroundings where
  numHosts := 1
  nodeId := 0
  moduleManager := true
  hasChiMod name := name = [109]
  createContainer _ _ _ := .ok (some 7)
  restartOf _ := .ok false
  restart _ _ _ _ := .ok ()
  init _ _ _ _ := .ok ()

/-- A pool "p" of that module, under the id that is asked for. -/
def poolP (poolId : PoolId) : Request :=
  ⟨oneModule, ⟨[109], [112], [], poolId, false, 0⟩⟩

/-- Containers whose `Create` returns any code. -/
def createsWith (returnCode : UInt32) (_ : CreateCall) (d : Unit) : UInt32 × Unit :=
  (returnCode, d)

/-- A new node on which one task takes these steps. -/
def scripted : List (Co.Act Request UInt32) → Node Unit
  | [] => fresh ()
  | a :: before => ((scripted before).act createsWith Request.prog a).getD (fresh ())

theorem getOrCreatePool_honest_iff_created :
    ∃ p₁ result q q', Step (Co.Serves createsWith) (.move (.start (poolP ⟨4, 1⟩))) (fresh ()) p₁ ∧
      Returns (Co.Serves createsWith) (poolP ⟨4, 1⟩) (fresh ()) p₁ result q q' ∧
      Registered q'.world.c result.newPoolId [112] := by
  have hstart := Step.move (@Co.moves_act _ _ _ _ _ _ _ createsWith Request.prog (fresh ())
    (scripted [.start (poolP ⟨4, 1⟩) []]) (.start (poolP ⟨4, 1⟩) []) rfl)
  have hserve := Step.move (@Co.moves_act _ _ _ _ _ _ _ createsWith Request.prog
    (scripted [.start (poolP ⟨4, 1⟩) []]) (scripted [.serve 0 0 0, .start (poolP ⟨4, 1⟩) []])
    (.serve 0 0 0) rfl)
  have hresume := Step.move (@Co.moves_act _ _ _ _ _ _ _ createsWith Request.prog
    (scripted [.serve 0 0 0, .start (poolP ⟨4, 1⟩) []])
    (scripted [.resume 0 [], .serve 0 0 0, .start (poolP ⟨4, 1⟩) []]) (.resume 0 []) rfl)
  have hwait : Along (Step (Co.Serves createsWith)) [.move (.serve 0)]
      (scripted [.start (poolP ⟨4, 1⟩) []])
      (scripted [.serve 0 0 0, .start (poolP ⟨4, 1⟩) []]) := ⟨_, hserve, rfl⟩
  have hret : Returns (Co.Serves createsWith) (poolP ⟨4, 1⟩) (fresh ()) _ (poolP ⟨4, 1⟩).task _ _ :=
    .later hwait hresume rfl
  have hrun : Along (Step (Co.Serves createsWith)) [] (fresh ()) (fresh ()) := rfl
  refine ⟨_, _, _, _, hstart, hret, ?_⟩
  refine ((getOrCreatePool_honest_iff hrun).2 _ _ _ _ _ hstart hret).1.mpr ?_ rfl
  exact Or.inr ⟨by decide, Or.inr ⟨by decide, rfl, 7, by decide⟩⟩

/-- A request for a pool under the null id is answered with 0, and there is no pool. -/
theorem null_id_not_honest :
    ¬∀ r p₁ result q q', Step (Co.Serves createsWith) (.move (.start r)) (fresh ()) p₁ →
      Returns (Co.Serves createsWith) r (fresh ()) p₁ result q q' → result.returnCode = 0 →
      Registered q'.world.c result.newPoolId r.task.poolName := by
  intro h
  have hstart := Step.move (@Co.moves_act _ _ _ _ _ _ _ createsWith Request.prog (fresh ())
    (scripted [.start (poolP UniqueId.null) []]) (.start (poolP UniqueId.null) []) rfl)
  obtain ⟨info, hinfo, _⟩ := h (poolP UniqueId.null) _ (poolP UniqueId.null).task _ _ hstart
    (.atOnce rfl) rfl
  have hnone : (scripted [.start (poolP UniqueId.null) []]).world.c.find? UniqueId.null = none :=
    rfl
  exact absurd (hnone.symm.trans hinfo) (by simp)

end Pools
end IowarpCore
