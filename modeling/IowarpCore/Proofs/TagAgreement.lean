/-
The whole cluster agrees on tags, as long as a tag's blobs are where the tag is.

Every name has one node that creates and deletes its tag, the one it hashes to, and no
other node ever learns it: only a task that carries the id of another node would be
remembered elsewhere, and the ids a sender can ask for are those of the name's own node.
So the maps of that node alone decide, and the history can be read off them (`Sound`).

Three things break it.  `DelTag` deletes the blobs of its own container and no others.  A
tag without a name keeps the entry of its name.  And ids are counted in 32 bits.
-/
import IowarpCore.Proofs.Sharding
import IowarpCore.Proofs.TagMaps

namespace IowarpCore
namespace Cte

open Bdev (Request Reply Devices)
open Cluster (NodeId)

/-! ### What the history should say -/

/-- Between two tasks that got different ids for a name, the first id was deleted. -/
def Agreement (h : List TagEvent) : Prop :=
  ∀ before between after name id id',
    h = before ++ .got name id :: (between ++ .got name id' :: after) →
    .deleted id ∉ between → id' = id

/-- Two names never got the same id. -/
def Distinct (h : List TagEvent) : Prop :=
  ∀ name name' id, .got name id ∈ h → .got name' id ∈ h → name = name'

/-- The id was got for the name and not deleted since. -/
def Live (h : List TagEvent) (name : Bytes) (id : TagId) : Prop :=
  ∃ before after, h = before ++ .got name id :: after ∧ .deleted id ∉ after

section

variable {h : List TagEvent} {name : Bytes} {id : TagId}

theorem Live.mem (hlive : Live h name id) : .got name id ∈ h := by
  obtain ⟨before, after, heq, _⟩ := hlive
  rw [heq]
  simp

theorem live_snoc {e : TagEvent} (hlive : Live (h ++ [e]) name id) :
    e = .got name id ∨ (Live h name id ∧ e ≠ .deleted id) := by
  obtain ⟨before, after, heq, hnot⟩ := hlive
  rcases List.eq_nil_or_concat after with hnil | ⟨after', last, hlast⟩
  · rw [hnil] at heq
    exact .inl (by simpa using (List.append_inj' heq rfl).2)
  · rw [hlast, List.concat_eq_append] at heq hnot
    have hsplit : h ++ [e] = (before ++ .got name id :: after') ++ [last] := by simpa using heq
    obtain ⟨hh, he⟩ := List.append_inj' hsplit rfl
    rw [List.cons.injEq] at he
    refine .inr ⟨⟨before, after', hh, fun hmem => hnot (List.mem_append_left _ hmem)⟩, ?_⟩
    intro hdel
    exact hnot (by rw [← he.1, hdel]; simp)

/-- One more event, which agrees with what is live. -/
theorem Agreement.snoc (hagree : Agreement h) {e : TagEvent}
    (hnew : ∀ name id', e = .got name id' → ∀ id, Live h name id → id' = id) :
    Agreement (h ++ [e]) := by
  intro before between after name id id' heq hnot
  rcases List.eq_nil_or_concat after with hnil | ⟨after', last, hlast⟩
  · rw [hnil] at heq
    have hsplit : h ++ [e] = (before ++ .got name id :: between) ++ [.got name id'] := by
      simpa using heq
    obtain ⟨hh, he⟩ := List.append_inj' hsplit rfl
    rw [List.cons.injEq] at he
    exact hnew name id' he.1 id ⟨before, between, hh, hnot⟩
  · rw [hlast, List.concat_eq_append] at heq
    have hsplit : h ++ [e] =
        (before ++ .got name id :: (between ++ .got name id' :: after')) ++ [last] := by
      simpa using heq
    exact hagree before between after' name id id' (List.append_inj' hsplit rfl).1 hnot

end

/-! ### The maps of all nodes -/

/-- The tag maps of all nodes and the history fit each other. -/
structure Sound (canonical : Bytes → NodeId) (maps : NodeId → TagMaps) (h : List TagEvent) :
    Prop where
  placed : ∀ n name id, (maps n).names name = some id → canonical name = n
  back : ∀ n name id, (maps n).names name = some id ↔ (maps n).infos id = some name
  known : ∀ n name id, (maps n).names name = some id → .got name id ∈ h
  node : ∀ name id, .got name id ∈ h → id.major = canonical name
  counted : ∀ name id, .got name id ∈ h → (maps (canonical name)).nextMinor = 0 ∨
    id.minor < (maps (canonical name)).nextMinor
  distinct : Distinct h
  live : ∀ name id, Live h name id → (maps (canonical name)).names name = some id
  agreement : Agreement h

section

variable {canonical : Bytes → NodeId} {maps : NodeId → TagMaps} {h : List TagEvent} {n : NodeId}
  {name : Bytes} {id : TagId}

theorem Sound.major (hs : Sound canonical maps h) (hinfo : (maps n).infos id ≠ none) :
    id.major = n := by
  obtain ⟨name, hname⟩ := Option.ne_none_iff_exists'.mp hinfo
  have hnames := (hs.back n name id).mpr hname
  rw [hs.node name id (hs.known n name id hnames), hs.placed n name id hnames]

/-- A known name is got again. -/
theorem Sound.again (hs : Sound canonical maps h) (hname : (maps n).names name = some id) :
    Sound canonical maps (h ++ [.got name id]) := by
  have hgot := hs.known n name id hname
  have hold : ∀ name' id', TagEvent.got name' id' ∈ h ++ [.got name id] → .got name' id' ∈ h := by
    intro name' id' hmem
    rcases List.mem_append.mp hmem with hmem | hmem
    · exact hmem
    · rwa [List.mem_singleton.mp hmem]
  refine ⟨hs.placed, hs.back, ?_, ?_, ?_, ?_, ?_, ?_⟩
  · exact fun n' name' id' hn => List.mem_append_left _ (hs.known n' name' id' hn)
  · exact fun name' id' hmem => hs.node name' id' (hold name' id' hmem)
  · exact fun name' id' hmem => hs.counted name' id' (hold name' id' hmem)
  · exact fun a b id' ha hb => hs.distinct a b id' (hold a id' ha) (hold b id' hb)
  · intro name' id' hlive
    rcases live_snoc hlive with heq | ⟨hlive, _⟩
    · rw [TagEvent.got.injEq] at heq
      rw [← heq.1, ← heq.2, hs.placed n name id hname]
      exact hname
    · exact hs.live name' id' hlive
  · refine hs.agreement.snoc ?_
    intro name' id' heq id₀ hlive
    rw [TagEvent.got.injEq] at heq
    have hlive := hs.live name' id₀ hlive
    rw [← heq.1, hs.placed n name id hname, hname, Option.some.injEq] at hlive
    rw [← heq.2, hlive]

/-- A new tag on the node of its name, with an id that no other name ever got. -/
theorem Sound.put (hs : Sound canonical maps h) {next : UInt32} (hnode : canonical name = n)
    (hname : (maps n).names name = none) (hmajor : id.major = n)
    (hfree : ∀ name', .got name' id ∈ h → name' = name)
    (hnext : ∀ minor, (maps n).nextMinor = 0 ∨ minor < (maps n).nextMinor → next = 0 ∨ minor < next)
    (hid : next = 0 ∨ id.minor < next) :
    Sound canonical (Function.update maps n { (maps n).put name id with nextMinor := next })
      (h ++ [.got name id]) := by
  have hunused : (maps n).infos id = none := by
    rw [← Option.not_isSome_iff_eq_none, Option.isSome_iff_exists]
    rintro ⟨name', hinfo⟩
    have hnames := (hs.back n name' id).mpr hinfo
    rw [hfree name' (hs.known n name' id hnames), hname] at hnames
    simp at hnames
  have hnames : ∀ name' id', ((maps n).put name id).names name' = some id' ↔
      (name' = name ∧ id' = id) ∨ (name' ≠ name ∧ (maps n).names name' = some id') := by
    intro name' id'
    show Function.update (maps n).names name (some id) name' = some id' ↔ _
    rw [Function.update_apply]
    by_cases hn : name' = name
    · simp [hn, eq_comm]
    · simp [hn]
  have hcases : ∀ name' id', TagEvent.got name' id' ∈ h ++ [.got name id] →
      .got name' id' ∈ h ∨ (name' = name ∧ id' = id) := by
    intro name' id' hmem
    rcases List.mem_append.mp hmem with hmem | hmem
    · exact .inl hmem
    · exact .inr (TagEvent.got.injEq .. ▸ List.mem_singleton.mp hmem)
  refine ⟨?_, ?_, ?_, ?_, ?_, ?_, ?_, ?_⟩
  · intro n' name' id' hn
    by_cases hsame : n' = n
    · rw [hsame, Function.update_self] at hn
      rcases (hnames name' id').mp hn with ⟨hname', _⟩ | ⟨_, hold⟩
      · rw [hname', hsame, hnode]
      · rw [hsame]
        exact hs.placed n name' id' hold
    · rw [Function.update_of_ne hsame] at hn
      exact hs.placed n' name' id' hn
  · intro n' name' id'
    by_cases hsame : n' = n
    · rw [hsame, Function.update_self]
      refine (hnames name' id').trans ?_
      show _ ↔ Function.update (maps n).infos id (some name) id' = some name'
      rw [Function.update_apply]
      by_cases hi : id' = id
      · rw [if_pos hi, Option.some.injEq]
        constructor
        · rintro (⟨hname', _⟩ | ⟨_, hold⟩)
          · exact hname'.symm
          · rw [hs.back, hi, hunused] at hold
            simp at hold
        · exact fun hname' => .inl ⟨hname'.symm, hi⟩
      · rw [if_neg hi, ← hs.back]
        constructor
        · rintro (⟨_, hid'⟩ | ⟨_, hold⟩)
          · exact absurd hid' hi
          · exact hold
        · intro hold
          refine .inr ⟨?_, hold⟩
          intro hname'
          rw [hname', hname] at hold
          simp at hold
    · rw [Function.update_of_ne hsame]
      exact hs.back n' name' id'
  · intro n' name' id' hn
    by_cases hsame : n' = n
    · rw [hsame, Function.update_self] at hn
      rcases (hnames name' id').mp hn with ⟨hname', hid'⟩ | ⟨_, hold⟩
      · simp [hname', hid']
      · exact List.mem_append_left _ (hs.known n name' id' hold)
    · rw [Function.update_of_ne hsame] at hn
      exact List.mem_append_left _ (hs.known n' name' id' hn)
  · intro name' id' hmem
    rcases hcases name' id' hmem with hmem | ⟨hname', hid'⟩
    · exact hs.node name' id' hmem
    · rw [hname', hid', hnode, hmajor]
  · intro name' id' hmem
    by_cases hsame : canonical name' = n
    · rw [hsame, Function.update_self]
      rcases hcases name' id' hmem with hmem | ⟨_, hid'⟩
      · have hold := hs.counted name' id' hmem
        rw [hsame] at hold
        exact hnext _ hold
      · rw [hid']
        exact hid
    · rw [Function.update_of_ne hsame]
      rcases hcases name' id' hmem with hmem | ⟨hname', _⟩
      · exact hs.counted name' id' hmem
      · exact absurd (hname' ▸ hnode) hsame
  · intro a b id' ha hb
    rcases hcases a id' ha with ha | ⟨ha, hid'⟩
    · rcases hcases b id' hb with hb | ⟨hb, hid'⟩
      · exact hs.distinct a b id' ha hb
      · rw [hb]
        exact hfree a (hid' ▸ ha)
    · rcases hcases b id' hb with hb | ⟨hb, _⟩
      · rw [ha]
        exact (hfree b (hid' ▸ hb)).symm
      · rw [ha, hb]
  · intro name' id' hlive
    rcases live_snoc hlive with heq | ⟨hlive, _⟩
    · rw [TagEvent.got.injEq] at heq
      rw [← heq.1, ← heq.2, hnode, Function.update_self]
      exact (hnames name id).mpr (.inl ⟨rfl, rfl⟩)
    · have hold := hs.live name' id' hlive
      by_cases hsame : canonical name' = n
      · rw [hsame] at hold ⊢
        rw [Function.update_self]
        refine (hnames name' id').mpr (.inr ⟨?_, hold⟩)
        intro hname'
        rw [hname', hname] at hold
        simp at hold
      · rwa [Function.update_of_ne hsame]
  · refine hs.agreement.snoc ?_
    intro name' id' heq id₀ hlive
    rw [TagEvent.got.injEq] at heq
    have hlive := hs.live name' id₀ hlive
    rw [← heq.1, hnode, hname] at hlive
    simp at hlive

/-- A tag is deleted on its node.  It has a name that is not empty, if it is still there. -/
theorem Sound.drop (hs : Sound canonical maps h)
    (hnamed : ∀ name, (maps n).infos id = some name → name ≠ []) :
    Sound canonical (Function.update maps n ((maps n).drop id)) (h ++ [.deleted id]) := by
  have hnames : ∀ name' id', ((maps n).drop id).names name' = some id' ↔
      (maps n).names name' = some id' ∧ id' ≠ id := by
    intro name' id'
    show (if name' ≠ [] ∧ (maps n).infos id = some name' then none else (maps n).names name') =
      some id' ↔ _
    by_cases hgone : (maps n).infos id = some name'
    · rw [if_pos ⟨hnamed name' hgone, hgone⟩]
      simp only [reduceCtorEq, false_iff, not_and, not_not]
      intro hold
      rw [← hs.back, hold, Option.some.injEq] at hgone
      exact hgone
    · rw [if_neg fun hand => hgone hand.2]
      refine ⟨fun hold => ⟨hold, ?_⟩, And.left⟩
      intro hid'
      rw [hs.back, hid'] at hold
      exact hgone hold
  have hcases : ∀ name' id', TagEvent.got name' id' ∈ h ++ [.deleted id] → .got name' id' ∈ h := by
    intro name' id' hmem
    simpa using hmem
  refine ⟨?_, ?_, ?_, ?_, ?_, ?_, ?_, ?_⟩
  · intro n' name' id' hn
    by_cases hsame : n' = n
    · rw [hsame, Function.update_self] at hn
      rw [hsame]
      exact hs.placed n name' id' ((hnames name' id').mp hn).1
    · rw [Function.update_of_ne hsame] at hn
      exact hs.placed n' name' id' hn
  · intro n' name' id'
    by_cases hsame : n' = n
    · rw [hsame, Function.update_self]
      refine (hnames name' id').trans ?_
      show _ ↔ Function.update (maps n).infos id none id' = some name'
      rw [Function.update_apply]
      by_cases hi : id' = id
      · simp [hi]
      · rw [if_neg hi, ← hs.back]
        exact and_iff_left hi
    · rw [Function.update_of_ne hsame]
      exact hs.back n' name' id'
  · intro n' name' id' hn
    refine List.mem_append_left _ ?_
    by_cases hsame : n' = n
    · rw [hsame, Function.update_self] at hn
      exact hs.known n name' id' ((hnames name' id').mp hn).1
    · rw [Function.update_of_ne hsame] at hn
      exact hs.known n' name' id' hn
  · exact fun name' id' hmem => hs.node name' id' (hcases name' id' hmem)
  · intro name' id' hmem
    have hold := hs.counted name' id' (hcases name' id' hmem)
    by_cases hsame : canonical name' = n
    · rw [hsame] at hold ⊢
      rw [Function.update_self]
      exact hold
    · rwa [Function.update_of_ne hsame]
  · exact fun a b id' ha hb => hs.distinct a b id' (hcases a id' ha) (hcases b id' hb)
  · intro name' id' hlive
    rcases live_snoc hlive with heq | ⟨hlive, hne⟩
    · simp at heq
    · have hold := hs.live name' id' hlive
      by_cases hsame : canonical name' = n
      · rw [hsame] at hold ⊢
        rw [Function.update_self]
        refine (hnames name' id').mpr ⟨hold, ?_⟩
        intro hid'
        exact hne (by rw [hid'])
      · rwa [Function.update_of_ne hsame]
  · exact hs.agreement.snoc fun name' id' heq => by simp at heq

/-- The tasks for which the outcome keeps the maps sound: a generated id is a new number,
and a deleted tag has a name. -/
theorem Sound.outcome (hs : Sound canonical maps h) {t : Task} {r : UInt32 × TagId} {c : Container}
    (hout : Outcome n (maps n) c t r) (hpreferred : t.Preferred h)
    (hnode : ∀ name preferredId, t = .getOrCreateTag name preferredId → canonical name = n)
    (hcounter : ∀ name preferredId, t = .getOrCreateTag name preferredId →
      (maps n).names name = none → ¬(preferredId ≠ UniqueId.null ∧ (maps n).infos preferredId = none) →
      (maps n).nextMinor ≠ 0)
    (hnamed : ∀ id, TagEvent.of (t, r) = [.deleted id] →
      ∀ name, (maps n).infos id = some name → name ≠ []) :
    Sound canonical (Function.update maps n c.tagMaps) (h ++ TagEvent.of (t, r)) := by
  cases hout with
  | same hsame hnone =>
    rw [hsame, hnone, List.append_nil, Function.update_eq_self]
    exact hs
  | known hname hsame =>
    rw [hsame, Function.update_eq_self]
    exact hs.again hname
  | @remote name preferredId hmajor hother =>
    rcases hpreferred with hnull | hgot
    · rw [hnull] at hmajor
      exact absurd rfl hmajor
    · exact absurd ((hs.node name preferredId hgot).trans (hnode name preferredId rfl)) hother
  | @preferred name preferredId hname hnull hfree hmaps =>
    have hgot : TagEvent.got name preferredId ∈ h := by
      rcases hpreferred with hnull' | hgot
      · exact absurd hnull' hnull
      · exact hgot
    have hnode' := hnode name preferredId rfl
    rw [hmaps]
    show Sound canonical (Function.update maps n
      { (maps n).put name preferredId with nextMinor := (maps n).nextMinor }) _
    refine hs.put hnode' hname ?_ ?_ (fun _ hold => hold) ?_
    · rw [hs.node name preferredId hgot, hnode']
    · exact fun name' hgot' => hs.distinct name' name preferredId hgot' hgot
    · have hcount := hs.counted name preferredId hgot
      rwa [hnode'] at hcount
  | @generated name preferredId hname hnot hmaps =>
    have hnode' := hnode name preferredId rfl
    have hpos := hcounter name preferredId rfl hname hnot
    have hsucc : ∀ minor : UInt32, minor ≤ (maps n).nextMinor →
        (maps n).nextMinor + 1 = 0 ∨ minor < (maps n).nextMinor + 1 := by
      intro minor hle
      by_cases hwrap : (maps n).nextMinor.toNat + 1 = 2 ^ 32
      · left
        rw [← UInt32.toNat_inj, UInt32.toNat_add, UInt32.toNat_one, hwrap]
        rfl
      · right
        have hlt := (maps n).nextMinor.toNat_lt
        rw [UInt32.le_iff_toNat_le] at hle
        rw [UInt32.lt_iff_toNat_lt, UInt32.toNat_add, UInt32.toNat_one,
          Nat.mod_eq_of_lt (by omega)]
        omega
    rw [hmaps]
    refine hs.put hnode' hname rfl ?_ ?_ (hsucc _ (UInt32.le_refl _))
    · intro name' hgot
      have hat : canonical name' = n := (hs.node name' _ hgot).symm
      have hcount := hs.counted name' _ hgot
      rw [hat] at hcount
      rcases hcount with hzero | hlt
      · exact absurd hzero hpos
      · exact absurd hlt (UInt32.lt_irrefl _)
    · intro minor hold
      rcases hold with hzero | hlt
      · exact absurd hzero hpos
      · exact hsucc minor (UInt32.le_of_lt hlt)
  | deleted hmajor hmaps hgone =>
    rw [hmaps]
    exact hs.drop (hnamed _ rfl)

end

/-! ### Runs of the cluster -/

/-- The node of a name. -/
def Deployment.canonical (D : Deployment) (name : Bytes) : NodeId :=
  D.owner (D.hashers.string name)

/-- What holds at every point of a run. -/
structure Agreeing (D : Deployment) (s : System) : Prop where
  sound : Sound D.canonical (fun n => (s.container n).tagMaps) s.history
  awaits : ∀ n, ∀ x ∈ (s.shards n).threads,
    Co.Awaits (fun m c => c.tagMaps = m) (fun _ _ => True) (fun r m c => Outcome n m c x.1 r) x.2
      (s.container n)
  waiting : ∀ n, ∀ x ∈ (s.shards n).threads, ∀ sent ok k, x.2 = .waiting sent ok k →
    ∀ name preferredId, x.1 ≠ .getOrCreateTag name preferredId
  inFlight : ∀ e ∈ s.inFlight, e.OnWay D ∧ e.task.Preferred s.history

/-- `GetOrCreateTag` with this name and id would generate an id. -/
def Container.Generates (c : Container) (tagName : Bytes) (preferredId : TagId) : Prop :=
  c.tagNameToId.find? tagName = none ∧
    ¬(preferredId ≠ UniqueId.null ∧ c.tagName? preferredId = none)

namespace System

/-- The task that starts if the task at a place is routed now, and where. -/
def starts (D : Deployment) (s : System) (i : Nat) : Option (NodeId × Task) :=
  match s.inFlight[i]? with
  | none => none
  | some e =>
    match s.hop D e with
    | .here delivery => some (delivery.node, e.task)
    | _ => none

/-- The tag has a name, and no blobs but on its own node. -/
structure Deletable (D : Deployment) (s : System) (id : TagId) : Prop where
  named : (s.container id.major).tagName? id ≠ some []
  blobs : ∀ n ∈ nodeIds D.numNodes, n ≠ id.major →
    ∀ key, hasTagPrefix id key = true → (s.container n).blobs.find? key = none

/-- No name leads to the id on any node, and no container has a blob of the tag. -/
structure Gone (D : Deployment) (s : System) (id : TagId) : Prop where
  names : ∀ n ∈ nodeIds D.numNodes, ∀ name, (s.container n).tagNameToId.find? name ≠ some id
  blobs : ∀ n ∈ nodeIds D.numNodes,
    ∀ key, hasTagPrefix id key = true → (s.container n).blobs.find? key = none

/-- A step in which the counter gives new numbers, and deletes a tag only if it is
deletable. -/
structure SafeStep (D : Deployment) (S : Request → Devices → Reply → Devices → Prop) (a : Action)
    (s s' : System) : Prop where
  steps : Steps D S a s s'
  counter : ∀ i n name preferredId, a = .route i →
    s.starts D i = some (n, .getOrCreateTag name preferredId) →
    (s.container n).Generates name preferredId → (s.container n).nextTagIdMinor ≠ 0
  deletable : ∀ id, s'.history = s.history ++ [.deleted id] → s.Deletable D id

end System

section

variable {D : Deployment} {S : Request → Devices → Reply → Devices → Prop} {s s' : System}
  {n : NodeId} {m : Co.Move Task} {p : Shard} {inFlight : List Envelope}

theorem Task.Preferred.later {h h' : List TagEvent} {t : Task} (hpref : t.Preferred h)
    (hsub : ∀ x ∈ h, x ∈ h') : t.Preferred h' := by
  cases t with
  | getOrCreateTag name preferredId => exact Or.imp_right (hsub _) hpref
  | _ => trivial

/-- A `GetOrCreateTag` never waits. -/
theorem quiet_getOrCreateTag (cfg : Config) (tagName : Bytes) (preferredId : TagId) :
    Co.Quiet (Task.reply cfg (.getOrCreateTag tagName preferredId)) := by
  refine Co.quiet_bind ?_ fun _ => trivial
  unfold getOrCreateTag
  by_cases hremote : isRemoteTag cfg preferredId = true
  · rw [if_pos hremote]
    exact fun _ => trivial
  · rw [if_neg hremote]
    refine Co.quiet_bind (fun _ => trivial) fun c => ?_
    cases c.tagNameToId.find? tagName with
    | some tagId => trivial
    | none => exact fun _ _ _ => trivial

theorem container_after (n' : NodeId) :
    (s.after n m p inFlight).container n' = if n' = n then p.world.c else s.container n' := by
  unfold System.container System.after
  dsimp only
  rw [Function.update_apply]
  split
  · rfl
  · rfl

theorem tagMaps_after : (fun n' => ((s.after n m p inFlight).container n').tagMaps) =
    Function.update (fun n' => (s.container n').tagMaps) n p.world.c.tagMaps := by
  funext n'
  rw [container_after, Function.update_apply]
  split
  · rfl
  · rfl

/-- The step of a task that runs on a node of the cluster. -/
theorem Agreeing.outcome (h : Agreeing D s)
    (hmove : Co.Moves S (Task.reply (D.config n)) m (s.shards n) p) :
    (∀ x ∈ p.threads, Co.Awaits (fun m c => c.tagMaps = m) (fun _ _ => True)
        (fun r m c => Outcome n m c x.1 r) x.2 p.world.c) ∧
      (∀ x, Co.finished m (s.shards n) p = some x →
        Outcome n (s.container n).tagMaps p.world.c x.1 x.2) ∧
      (Co.finished m (s.shards n) p = none → p.world.c.tagMaps = (s.container n).tagMaps) := by
  refine Co.moves_outcome (P := fun t r m c => Outcome n m c t r) (fun _ => trivial)
    (fun _ _ _ _ _ => trivial) rfl (h.awaits n) ?_ hmove trivial
  intro t _
  have hwp := @wp_reply (D.config n) (s.container n) t
  rw [D.config_nodeId] at hwp
  exact hwp fun id hinfo => h.sound.major hinfo

theorem Agreeing.after (h : Agreeing D s)
    (hmove : Co.Moves S (Task.reply (D.config n)) m (s.shards n) p)
    (hstart : ∀ t, m = .start t → t.Preferred s.history ∧
      ∀ name preferredId, t = .getOrCreateTag name preferredId → D.canonical name = n ∧
        ((s.container n).Generates name preferredId → (s.container n).nextTagIdMinor ≠ 0))
    (hdeletable : ∀ id, (s.after n m p inFlight).history = s.history ++ [.deleted id] →
      (s.container n).tagName? id ≠ some [])
    (hflight : ∀ e ∈ inFlight, e ∈ s.inFlight) : Agreeing D (s.after n m p inFlight) := by
  obtain ⟨hawaits, hdone, hnot⟩ := h.outcome hmove
  refine ⟨?_, ?_, ?_, ?_⟩
  · rw [tagMaps_after]
    unfold System.after at hdeletable ⊢
    dsimp only at hdeletable ⊢
    cases hfin : Co.finished m (s.shards n) p with
    | none =>
      rw [Option.map_none, Option.getD_none, List.append_nil, hnot hfin,
        Function.update_eq_self (f := fun n' => (s.container n').tagMaps)]
      exact h.sound
    | some x =>
      obtain ⟨t, r⟩ := x
      rw [hfin, Option.map_some, Option.getD_some] at hdeletable
      rw [Option.map_some, Option.getD_some]
      have hmine : ∀ name preferredId, t = .getOrCreateTag name preferredId → m = .start t := by
        intro name preferredId ht
        rcases hmove.finished_cases hfin with hm | ⟨sent, ok, k, hmem⟩
        · exact hm
        · exact absurd ht (h.waiting n _ hmem sent ok k rfl name preferredId)
      refine h.sound.outcome (n := n) (hdone _ hfin) ?_ ?_ ?_ ?_
      · cases t with
        | getOrCreateTag name preferredId => exact (hstart _ (hmine name preferredId rfl)).1
        | _ => trivial
      · intro name preferredId ht
        exact ((hstart t (hmine name preferredId ht)).2 name preferredId ht).1
      · intro name preferredId ht hname hgen
        exact ((hstart t (hmine name preferredId ht)).2 name preferredId ht).2 ⟨hname, hgen⟩
      · intro id hevent name hname hnil
        rw [hnil] at hname
        exact hdeletable id (by rw [hevent]) hname
  · intro n' x hx
    rw [container_after]
    unfold System.after at hx
    dsimp only at hx
    by_cases hn : n' = n
    · subst hn
      rw [Function.update_self] at hx
      rw [if_pos rfl]
      exact hawaits x hx
    · rw [Function.update_of_ne hn] at hx
      rw [if_neg hn]
      exact h.awaits n' x hx
  · intro n' x hx sent ok k hwait name preferredId ht
    unfold System.after at hx
    dsimp only at hx
    by_cases hn : n' = n
    · subst hn
      rw [Function.update_self] at hx
      rcases hmove.thread_cases hx with hx | ⟨sent', ok', k', hmem⟩ | ⟨_, hreach⟩
      · exact h.waiting n' x hx sent ok k hwait name preferredId ht
      · exact h.waiting n' _ hmem sent' ok' k' rfl name preferredId ht
      · rw [ht] at hreach
        obtain ⟨r, hr⟩ := Co.done_of_quiet (quiet_getOrCreateTag _ name preferredId) hreach
        rw [hr] at hwait
        simp at hwait
    · rw [Function.update_of_ne hn] at hx
      exact h.waiting n' x hx sent ok k hwait name preferredId ht
  · intro e he
    obtain ⟨hway, hpref⟩ := h.inFlight e (hflight e he)
    exact ⟨hway, hpref.later fun x hx => List.mem_append_left _ hx⟩

/-- A node that starts a `GetOrCreateTag` is the node of the name. -/
theorem Agreeing.starts (h : Agreeing D s) {e : Envelope} (he : e ∈ s.inFlight)
    {delivery : Cluster.Delivery} (hhop : s.hop D e = .here delivery) :
    delivery.node ∈ nodeIds D.numNodes ∧
      ∀ name preferredId, e.task = .getOrCreateTag name preferredId →
        D.canonical name = delivery.node := by
  obtain ⟨hway, _⟩ := h.inFlight e he
  rcases hop_cases (s := s) hway with ⟨delivery', hhop', hnode, htag⟩ | ⟨n, t, hhop', _⟩
  · rw [hhop, Cluster.Hop.here.injEq] at hhop'
    subst hhop'
    refine ⟨hnode ▸ hway.node, ?_⟩
    intro name preferredId ht
    rw [hnode]
    rcases htag name preferredId ht with hknown | howner
    · rw [AMap.contains_iff] at hknown
      obtain ⟨id, hid⟩ := hknown
      exact h.sound.placed e.node name id (AMap.find?_eq_some_iff.mpr hid)
    · exact howner
  · rw [hhop] at hhop'
    simp at hhop'

/-- Only the tag's own node can know it without a name. -/
theorem Agreeing.named (h : Agreeing D s) {id : TagId} (hdel : s.Deletable D id) :
    (s.container n).tagName? id ≠ some [] := by
  intro hinfo
  have hmajor : id.major = n := by
    refine h.sound.major ?_
    show (s.container n).tagName? id ≠ none
    rw [hinfo]
    simp
  have hnamed := hdel.named
  rw [hmajor] at hnamed
  exact hnamed hinfo

theorem getElem?_mid {α : Type} (pre post : List α) (e : α) :
    (pre ++ e :: post)[pre.length]? = some e := by simp

theorem Agreeing.step (h : Agreeing D s) {a : Action} (hstep : s.SafeStep D S a s') :
    Agreeing D s' := by
  obtain ⟨hsteps, hcounter, hdeletable⟩ := hstep
  cases hsteps with
  | @submit _ here t hhere hpref =>
    refine ⟨h.sound, h.awaits, h.waiting, ?_⟩
    intro e he
    rcases List.mem_append.mp he with he | he
    · exact h.inFlight e he
    · rw [List.mem_singleton.mp he]
      exact ⟨onWay_submit hhere, hpref⟩
  | @failed _ pre post e hflight hhop =>
    refine ⟨h.sound, h.awaits, h.waiting, ?_⟩
    intro x hx
    refine h.inFlight x ?_
    rw [hflight]
    rcases List.mem_append.mp hx with hx | hx
    · exact List.mem_append_left _ hx
    · exact List.mem_append_right _ (List.mem_cons_of_mem _ hx)
  | @forward _ pre post e sent hflight hhop =>
    refine ⟨h.sound, h.awaits, h.waiting, ?_⟩
    have hmem : e ∈ s.inFlight := by rw [hflight]; simp
    obtain ⟨hway, hpref⟩ := h.inFlight e hmem
    intro x hx
    rcases List.mem_append.mp hx with hx | hx
    · rcases List.mem_append.mp hx with hx | hx
      · exact h.inFlight x (by rw [hflight]; exact List.mem_append_left _ hx)
      · rcases hop_cases (s := s) hway with ⟨delivery, hhop', _⟩ | ⟨n, t, hhop', honway⟩
        · rw [hhop] at hhop'
          simp at hhop'
        · rw [hhop, Cluster.Hop.forward.injEq] at hhop'
          rw [hhop', List.map_singleton, List.mem_singleton] at hx
          rw [hx]
          exact ⟨honway, hpref⟩
    · exact h.inFlight x
        (by rw [hflight]; exact List.mem_append_right _ (List.mem_cons_of_mem _ hx))
  | @start _ pre post e delivery p hflight hhop hmove =>
    have hmem : e ∈ s.inFlight := by rw [hflight]; simp
    have hstarts : s.starts D pre.length = some (delivery.node, e.task) := by
      rw [System.starts, hflight, getElem?_mid]
      simp only [hhop]
    obtain ⟨_, hnode⟩ := h.starts hmem hhop
    refine h.after hmove ?_ ?_ ?_
    · intro t ht
      injection ht with ht
      subst ht
      refine ⟨(h.inFlight e hmem).2, fun name preferredId htag => ⟨hnode _ _ htag, ?_⟩⟩
      rw [htag] at hstarts
      exact hcounter _ _ name preferredId rfl hstarts
    · exact fun id hhist => h.named (hdeletable id hhist)
    · intro x hx
      rw [hflight]
      rcases List.mem_append.mp hx with hx | hx
      · exact List.mem_append_left _ hx
      · exact List.mem_append_right _ (List.mem_cons_of_mem _ hx)
  | @work _ here m p hhere hnot hmove =>
    refine h.after hmove (fun t ht => absurd ht (hnot t)) ?_ fun _ hx => hx
    exact fun id hhist => h.named (hdeletable id hhist)

theorem agreeing_init (D : Deployment) (targets : NodeId → Targets) (numLogs : NodeId → Nat)
    (d : NodeId → Devices) : Agreeing D (System.init targets numLogs d) := by
  refine ⟨⟨?_, ?_, ?_, ?_, ?_, ?_, ?_, ?_⟩, ?_, ?_, ?_⟩
  · intro n name id hname
    simp [System.container, System.init, Container.tagMaps, Container.create] at hname
  · intro n name id
    simp [System.container, System.init, Container.tagMaps, Container.create, Container.tagName?]
  · intro n name id hname
    simp [System.container, System.init, Container.tagMaps, Container.create] at hname
  · intro name id hgot
    simp [System.init] at hgot
  · intro name id hgot
    simp [System.init] at hgot
  · intro name name' id hgot
    simp [System.init] at hgot
  · intro name id hlive
    exact absurd hlive.mem (by simp [System.init])
  · intro before between after name id id' hnil
    simp [System.init] at hnil
  · intro n x hx
    simp [System.init] at hx
  · intro n x hx
    simp [System.init] at hx
  · intro e he
    simp [System.init] at he

/-- The delete of a tag that is deletable leaves nothing of it. -/
theorem Agreeing.gone_after (h : Agreeing D s)
    (hmove : Co.Moves S (Task.reply (D.config n)) m (s.shards n) p) {id : TagId}
    (hdel : s.Deletable D id) (hafter : Agreeing D (s.after n m p inFlight))
    (hhist : (s.after n m p inFlight).history = s.history ++ [.deleted id]) :
    (s.after n m p inFlight).Gone D id := by
  obtain ⟨_, hdone, _⟩ := h.outcome hmove
  have hevents := List.append_cancel_left hhist
  cases hfin : Co.finished m (s.shards n) p with
  | none =>
    rw [hfin] at hevents
    simp at hevents
  | some x =>
    obtain ⟨t, r⟩ := x
    have hout := hdone _ hfin
    rw [hfin, Option.map_some, Option.getD_some] at hevents
    cases hout with
    | same _ hnone =>
      rw [hnone] at hevents
      simp at hevents
    | known => simp [TagEvent.of] at hevents
    | remote => simp [TagEvent.of] at hevents
    | preferred => simp [TagEvent.of] at hevents
    | generated => simp [TagEvent.of] at hevents
    | @deleted _ id' _ hmajor hmaps hgone =>
      have hid : id' = id := by simpa [TagEvent.of] using hevents
      rw [hid] at hmajor hmaps hgone
      have hsame : (s.after n m p inFlight).container n = p.world.c := by
        rw [container_after, if_pos rfl]
      refine ⟨?_, ?_⟩
      · intro n' _ name hname
        -- The name would have its node where the tag was, and there it is erased.
        have hname' : ((s.after n m p inFlight).container n').tagMaps.names name = some id :=
          hname
        have hinfo' := (hafter.sound.back n' name id).mp hname'
        have hn : n' = n := by
          rw [← hmajor]
          refine (hafter.sound.major ?_).symm
          exact fun hnone => by rw [hnone] at hinfo'; simp at hinfo'
        rw [hn, hsame, hmaps] at hname'
        change (if name ≠ [] ∧ (s.container n).tagMaps.infos id = some name then none
          else (s.container n).tagMaps.names name) = some id at hname'
        by_cases hinfo : (s.container n).tagMaps.infos id = some name
        · have hne : name ≠ [] := by
            intro hnil
            rw [hnil] at hinfo
            exact h.named hdel hinfo
          rw [if_pos ⟨hne, hinfo⟩] at hname'
          simp at hname'
        · rw [if_neg fun hand => hinfo hand.2] at hname'
          exact hinfo ((h.sound.back n name id).mp hname')
      · intro n' hn' key hkey
        by_cases hn : n' = n
        · rw [hn, hsame]
          exact hgone key hkey
        · rw [container_after, if_neg hn]
          exact hdel.blobs n' hn' (hmajor ▸ hn) key hkey

theorem Agreeing.gone (h : Agreeing D s) {a : Action} (hstep : s.SafeStep D S a s') {id : TagId}
    (hhist : s'.history = s.history ++ [.deleted id]) : s'.Gone D id := by
  have hafter := h.step hstep
  have hdel := hstep.deletable id hhist
  cases hstep.steps with
  | submit => simp at hhist
  | failed => simp at hhist
  | forward => simp at hhist
  | start _ _ hmove => exact h.gone_after hmove hdel hafter hhist
  | work _ _ hmove => exact h.gone_after hmove hdel hafter hhist

/--
**The cluster agrees on tags while every tag's blobs are on its node.**  On any number of
nodes, in any interleaving of tasks from any nodes in which the counters do not wrap and a
`DelTag` ends only for a tag that has a name and no blobs on other nodes: a name keeps its
id until the id is deleted, no two names ever get the same id, and when a delete returns 0
no node resolves a name to the id and no container has a blob of the tag.
-/
theorem tags_agree {targets : NodeId → Targets} {numLogs : NodeId → Nat} {d : NodeId → Devices}
    {actions : List Action}
    (h : Along (System.SafeStep D S · · ·) actions (System.init targets numLogs d) s) :
    Agreement s.history ∧ Distinct s.history ∧
      ∀ a s' id, s.SafeStep D S a s' → s'.history = s.history ++ [.deleted id] →
        s'.Gone D id := by
  have hinv : Agreeing D s :=
    h.invariant (fun _ _ _ _ hs hstep => hs.step hstep) (agreeing_init D targets numLogs d)
  exact ⟨hinv.sound.agreement, hinv.sound.distinct, fun _ _ _ hstep hhist => hinv.gone hstep hhist⟩

end

/-! ### Scripted runs -/

instance (h : List TagEvent) (t : Task) : Decidable (t.Preferred h) :=
  match t with
  | .getOrCreateTag _ _ => inferInstanceAs (Decidable (_ ∨ _))
  | .delTag _ _ | .putBlob _ | .getBlob _ | .delBlob _ _ | .reorganizeBlob _ | .flushData _ =>
    isTrue trivial

/-- A step with everything it leaves open. -/
inductive SystemAct where
  | submit (here : NodeId) (t : Task)
  | route (i : Nat) (ns : List Nat)
  | work (here : NodeId) (a : Co.Act Task Bdev.Outcome)

def SystemAct.action : SystemAct → Action
  | submit here t => .submit here t
  | route i _ => .route i
  | work here a => .work here a.move

/-- The tasks of a node are at work, none is started. -/
def SystemAct.allowed (D : Deployment) (here : NodeId) : Co.Act Task Bdev.Outcome → Bool
  | .start _ _ => false
  | _ => here ∈ nodeIds D.numNodes

/-- The step, if there is such a step. -/
def System.act (D : Deployment) (s : System) : SystemAct → Option System
  | .submit here t =>
    if here ∈ nodeIds D.numNodes ∧ t.Preferred s.history then
      some { s with inFlight := s.inFlight ++ [⟨here, ⟨PoolQuery.dynamic, false⟩, t⟩] }
    else none
  | .route i ns =>
    match s.inFlight[i]? with
    | none => none
    | some e =>
      let before := s.inFlight.take i
      let behind := s.inFlight.drop (i + 1)
      match s.hop D e with
      | .failed => some { s with inFlight := before ++ behind }
      | .forward sent =>
        some { s with
          inFlight := before ++ (sent.map fun x => ⟨x.1, x.2, e.task⟩) ++ behind }
      | .here delivery =>
        ((s.shards delivery.node).act Bdev.Devices.serve
          (Task.reply (D.config delivery.node)) (.start e.task ns)).map fun p =>
            s.after delivery.node (.start e.task) p (before ++ behind)
  | .work here a =>
    if SystemAct.allowed D here a then
      ((s.shards here).act Bdev.Devices.serve (Task.reply (D.config here)) a).map fun p =>
        s.after here a.move p s.inFlight
    else none

theorem steps_systemAct {D : Deployment} {s s' : System} {a : SystemAct}
    (h : s.act D a = some s') : System.Steps D (Co.Serves Bdev.Devices.serve) a.action s s' := by
  cases a with
  | submit here t =>
    rw [System.act] at h
    by_cases hok : here ∈ nodeIds D.numNodes ∧ t.Preferred s.history
    · rw [if_pos hok, Option.some.injEq] at h
      rw [← h]
      exact .submit hok.1 hok.2
    · rw [if_neg hok] at h
      simp at h
  | route i ns =>
    rw [System.act] at h
    cases hi : s.inFlight[i]? with
    | none =>
      rw [hi] at h
      simp at h
    | some e =>
      rw [hi] at h
      dsimp only at h
      obtain ⟨hlen, hflight⟩ := Co.split_at_getElem? hi
      have haction : (SystemAct.route i ns).action = .route (s.inFlight.take i).length := by
        rw [hlen]
        rfl
      rw [haction]
      cases hhop : s.hop D e with
      | failed =>
        rw [hhop, Option.some.injEq] at h
        rw [← h]
        exact .failed hflight hhop
      | forward sent =>
        rw [hhop, Option.some.injEq] at h
        rw [← h]
        exact .forward hflight hhop
      | here delivery =>
        rw [hhop] at h
        obtain ⟨p, hp, heq⟩ := Option.map_eq_some_iff.mp h
        rw [← heq]
        exact .start hflight hhop (Co.moves_act hp)
  | work here a =>
    rw [System.act] at h
    by_cases hok : SystemAct.allowed D here a = true
    · rw [if_pos hok] at h
      obtain ⟨p, hp, heq⟩ := Option.map_eq_some_iff.mp h
      rw [← heq]
      refine .work ?_ ?_ (Co.moves_act hp)
      · cases a with
        | start t ns => simp [SystemAct.allowed] at hok
        | _ => simpa [SystemAct.allowed] using hok
      · intro t ht
        cases a with
        | start t ns => simp [SystemAct.allowed] at hok
        | _ => simp [Co.Act.move] at ht
    · rw [if_neg hok] at h
      simp at h

/-- The condition on a step, checked. -/
def checkSafeStep (D : Deployment) (s : System) (a : SystemAct) (s' : System) : Bool :=
  (match a with
    | .route i _ => (s.starts D i).all fun x => (s.container x.1).nextTagIdMinor ≠ 0
    | _ => true) &&
    match s'.history.getLast? with
    | some (.deleted id) =>
      (s.container id.major).tagName? id != some [] &&
        (nodeIds D.numNodes).all fun n => n == id.major ||
          (s.container n).blobs.entries.all fun x => !hasTagPrefix id x.1
    | _ => true

theorem safeStep_of_checkSafeStep {D : Deployment} (s : System) (a : SystemAct) (s' : System)
    (h : s.act D a = some s') (hcheck : checkSafeStep D s a s' = true) :
    s.SafeStep D (Co.Serves Bdev.Devices.serve) a.action s' := by
  unfold checkSafeStep at hcheck
  rw [Bool.and_eq_true] at hcheck
  obtain ⟨hcounter, hdelete⟩ := hcheck
  refine ⟨steps_systemAct h, ?_, ?_⟩
  · intro i n name preferredId ha hstarts _
    cases a with
    | submit here t => simp [SystemAct.action] at ha
    | work here a => simp [SystemAct.action] at ha
    | route j ns =>
      rw [SystemAct.action, Action.route.injEq] at ha
      rw [← ha] at hstarts
      simp only [hstarts, Option.all_some, decide_eq_true_eq] at hcounter
      exact hcounter
  · intro id hhist
    have hlast : s'.history.getLast? = some (.deleted id) := by rw [hhist]; simp
    rw [hlast] at hdelete
    simp only [Bool.and_eq_true, bne_iff_ne, List.all_eq_true, Bool.or_eq_true, beq_iff_eq,
      Bool.not_eq_true'] at hdelete
    refine ⟨hdelete.1, fun n hn hne key hkey => ?_⟩
    rw [AMap.find?_eq_none_iff]
    intro node hmem
    have hnot := (hdelete.2 n hn).resolve_left hne _ hmem
    rw [hkey] at hnot
    simp at hnot

/-- Two nodes with a device each.  The hash of a string is its length. -/
def twoShards : Deployment where
  numNodes := 2
  numNodes_pos := by decide
  hashers := ⟨fun b => UInt32.ofNat b.length, id⟩
  config n := { smallConfig with nodeId := n }
  config_nodeId _ := rfl

def freshShards : System := System.init (fun _ => smallTargets) (fun _ => 1) fun _ => smallRam

/-- The tag a is created from node 0, where its name does not hash to.  A blob of it is put
on a node; there it is task `i`. -/
def putScript (blobName : Bytes) (node : NodeId) (i : Nat) : List SystemAct :=
  [.submit 0 tagA, .route 0 [], .route 0 [], .submit node (.putBlob (smallPut blobName 0 5 7)),
    .route 0 [], .work node (.serve i 0 default), .work node (.resume i []),
    .work node (.serve i 0 default), .work node (.resume i [])]

/-- The tag is deleted from its node. -/
def deleteScript : List SystemAct := [.submit 1 delA, .route 0 []]

/-- The script, with a check on every step. -/
def runShards (check : System → SystemAct → System → Bool) (acts : List SystemAct) :
    Option System :=
  acts.foldlM (fun s a => (s.act twoShards a).filter (check s a)) freshShards

/-- The tag is deleted with its blob, which is on its node: the last step is the end of
`DelTag`. -/
theorem tags_agree_deleted :
    ∃ s s', Along (System.SafeStep twoShards (Co.Serves Bdev.Devices.serve) · · ·)
        ((putScript [7] 1 1 ++ deleteScript ++ [SystemAct.work 1 (.serve 2 0 default)]).map
          SystemAct.action) freshShards s ∧
      System.SafeStep twoShards (Co.Serves Bdev.Devices.serve) (Action.work 1 (.resume 2)) s s' ∧
      s'.history = [.got [97] ⟨1, 1⟩, .deleted ⟨1, 1⟩] ∧
      Agreement s.history ∧ Distinct s.history ∧ s'.Gone twoShards ⟨1, 1⟩ := by
  have hany : (runShards (checkSafeStep twoShards)
      (putScript [7] 1 1 ++ deleteScript ++ [.work 1 (.serve 2 0 default)])).any (fun s =>
        decide (s.history = [.got [97] ⟨1, 1⟩]) &&
          (s.act twoShards (.work 1 (.resume 2 []))).any fun s' =>
            checkSafeStep twoShards s (.work 1 (.resume 2 [])) s' &&
              decide (s'.history = [.got [97] ⟨1, 1⟩, .deleted ⟨1, 1⟩])) = true := by
    decide +kernel
  obtain ⟨s, hscript, hstate⟩ := (Option.any_eq_true _ _).mp hany
  rw [Bool.and_eq_true, decide_eq_true_eq] at hstate
  obtain ⟨hgot, hlast⟩ := hstate
  obtain ⟨s', hact, hstate⟩ := (Option.any_eq_true _ _).mp hlast
  rw [Bool.and_eq_true, decide_eq_true_eq] at hstate
  obtain ⟨hcheck, hdeleted⟩ := hstate
  have hrun := Along.of_checked safeStep_of_checkSafeStep hscript
  have hstep := safeStep_of_checkSafeStep s (.work 1 (.resume 2 [])) s' hact hcheck
  obtain ⟨hagree, hdistinct, hgone⟩ := tags_agree hrun
  exact ⟨s, s', hrun, hstep, hdeleted, hagree, hdistinct,
    hgone _ s' ⟨1, 1⟩ hstep (by rw [hdeleted, hgot]; rfl)⟩

/-- The blob of the tag is on the other node: `DelTag` returns 0 and leaves it there. -/
theorem blob_left_behind : ¬∀ actions s,
    Along (System.Steps twoShards (Co.Serves Bdev.Devices.serve) · · ·) actions freshShards s →
      Agreement s.history ∧ Distinct s.history ∧
        ∀ a s' id, System.Steps twoShards (Co.Serves Bdev.Devices.serve) a s s' →
          s'.history = s.history ++ [.deleted id] → s'.Gone twoShards id := by
  intro h
  have hany : (runShards (fun _ _ _ => true)
      (putScript [7, 7] 0 0 ++ [.submit 1 delA])).any (fun s =>
        (s.act twoShards (.route 0 [])).any fun s' =>
          decide (s'.history = s.history ++ [.deleted ⟨1, 1⟩]) &&
            (((s'.container 0).blobs.find? (compositeKey ⟨1, 1⟩ [7, 7])).isSome)) = true := by
    decide +kernel
  obtain ⟨s, hscript, hlast⟩ := (Option.any_eq_true _ _).mp hany
  obtain ⟨s', hact, hstate⟩ := (Option.any_eq_true _ _).mp hlast
  rw [Bool.and_eq_true, decide_eq_true_eq] at hstate
  have hrun := Along.of_checked (fun _ _ _ hact _ => steps_systemAct hact) hscript
  have hgone := (h _ s hrun).2.2 _ s' ⟨1, 1⟩ (steps_systemAct hact) hstate.1
  have hnone := hgone.blobs 0 (by decide) (compositeKey ⟨1, 1⟩ [7, 7])
    ((hasTagPrefix_compositeKey _ _ _).mpr rfl)
  rw [hnone] at hstate
  simp at hstate

end Cte
end IowarpCore
