/-
Saving and loading an adapter configuration.

A saved configuration is loaded if it has patterns of both kinds: an empty list of patterns is
saved as a null node, and only a sequence is loaded.  The load drops empty patterns, expands
the others again and sorts what it has, and the sort may leave equal lengths in any order.  So
a path is judged as before if all the longest patterns that match it after that have the
verdict of the first that matches it now.
-/
import IowarpCore.Adapter.CaeConfig
import Mathlib.Data.List.Infix

namespace IowarpCore.Adapter

variable {τ : Type} {w : World τ} {c : CaeConfig} {path : List Char}

/-! ### The round trip -/

/-- The saved text loads into any configuration, whatever the sort does to equal lengths, and
then every path is judged as it was. -/
def World.RoundTrips (w : World τ) (c : CaeConfig) : Prop :=
  ∀ (std : PatternSort) (into : CaeConfig),
    (w.loadFromString std (w.toYamlString c) into).1 = true ∧
      ∀ path, w.isPathTracked (w.loadFromString std (w.toYamlString c) into).2 path =
        w.isPathTracked c path

/-- A pattern as it is when it was saved and loaded. -/
def World.reread (w : World τ) (p : PathPattern) : Option PathPattern :=
  if p.pattern.isEmpty then none
  else some { p with pattern := expandPath w.getenv p.pattern }

def World.rereads (w : World τ) (patterns : List PathPattern) : List PathPattern :=
  patterns.filterMap w.reread

/-- One of the longest patterns that match a path. -/
abbrev World.Longest (w : World τ) (patterns : List PathPattern) (path : List Char)
    (p : PathPattern) : Prop :=
  Top (fun p : PathPattern => p.pattern.length) (w.matchesPath path) patterns p

/-- The longest patterns that match a path after a load all say what the first says that
matches it now, and if none does it is judged as it is by none now. -/
structure World.SameVerdict (w : World τ) (c : CaeConfig) (path : List Char) : Prop where
  matched : ∀ p, w.Longest (w.rereads c.patterns) path p →
    p.isInclude = w.verdict c.patterns path
  unmatched : (∀ p ∈ w.rereads c.patterns, ¬ w.matchesPath path p = true) →
    (if (w.rereads c.patterns).isEmpty then trackedByDefault path else false) =
      w.verdict c.patterns path

/-- What a configuration must be like for the round trip. -/
structure World.Keeps (w : World τ) (c : CaeConfig) : Prop where
  includes : ∃ p ∈ c.patterns, p.isInclude = true
  excludes : ∃ p ∈ c.patterns, p.isInclude = false
  verdicts : c.interceptionEnabled = true → w.cteManager ≠ some false →
    ∀ path, w.SameVerdict c path

/-! ### What a load of a saved configuration gives -/

/-- The scalars of some patterns of one kind are these patterns again, reread. -/
theorem patternsOf_scalars {patterns : List PathPattern} {isInclude : Bool}
    (hkind : ∀ p ∈ patterns, p.isInclude = isInclude) :
    w.patternsOf isInclude (patterns.map fun p => .scalar p.pattern) = w.rereads patterns := by
  rw [World.patternsOf, World.rereads, List.filterMap_map]
  refine List.filterMap_congr fun p hp => ?_
  obtain ⟨pattern, kind⟩ := p
  obtain rfl := hkind _ hp
  rfl

theorem patternsUnder_listNode {config : Yaml} {key : List Char} {patterns : List PathPattern}
    {isInclude : Bool} (hsub : config.subscript key = .ok (some (listNode patterns)))
    (hkind : ∀ p ∈ patterns, p.isInclude = isInclude) :
    w.patternsUnder config key isInclude =
      if patterns.isEmpty then none else some (w.rereads patterns) := by
  rw [World.patternsUnder, hsub, listNode]
  by_cases hempty : patterns.isEmpty = true
  · rw [if_pos hempty, if_pos hempty]
  · rw [if_neg hempty, if_neg hempty]
    exact congrArg some (patternsOf_scalars hkind)

theorem loadSettings_toYaml (w : World τ) (c into : CaeConfig) :
    w.loadSettings (w.toYaml c) into =
      (true, { into with
        adapterPageSize := if c.adapterPageSize = 0 then 4096 else c.adapterPageSize,
        interceptionEnabled := c.interceptionEnabled }) := by
  have hsize : scalarUnder (w.toYaml c) pageSizeKey w.yaml.asSize into.adapterPageSize =
      some c.adapterPageSize := w.yaml.asSize_sizeText c.adapterPageSize
  have hpresent : ((w.toYaml c).subscript pageSizeKey).toOption.join.isSome = true := rfl
  have hbool : ∀ enabled, scalarUnder (w.toYaml c) interceptionKey w.yaml.asBool enabled =
      some c.interceptionEnabled := fun _ => w.yaml.asBool_boolText c.interceptionEnabled
  simp only [World.loadSettings, hsize, hpresent, true_and, hbool]

/-- **A saved configuration, loaded.** -/
theorem loadFromString_toYamlString (w : World τ) (std : PatternSort) (c into : CaeConfig) :
    w.loadFromString std (w.toYamlString c) into =
      if (c.patterns.filter (·.isInclude)).isEmpty then (false, { into with patterns := [] })
      else if (c.patterns.filter (!·.isInclude)).isEmpty then
        (false, { into with patterns := w.rereads (c.patterns.filter (·.isInclude)) })
      else
        (true,
          { patterns := std.sort (w.rereads (c.patterns.filter (·.isInclude)) ++
              w.rereads (c.patterns.filter (!·.isInclude))),
            adapterPageSize := if c.adapterPageSize = 0 then 4096 else c.adapterPageSize,
            interceptionEnabled := c.interceptionEnabled }) := by
  have hinclude : w.patternsUnder (w.toYaml c) includeKey true =
      if (c.patterns.filter (·.isInclude)).isEmpty then none
      else some (w.rereads (c.patterns.filter (·.isInclude))) :=
    patternsUnder_listNode rfl fun p hp => (List.mem_filter.mp hp).2
  have hexclude : w.patternsUnder (w.toYaml c) excludeKey false =
      if (c.patterns.filter (!·.isInclude)).isEmpty then none
      else some (w.rereads (c.patterns.filter (!·.isInclude))) :=
    patternsUnder_listNode rfl fun p hp => by simpa using (List.mem_filter.mp hp).2
  have hempty : ¬ w.yaml.empty (w.toYamlString c) = true := by
    simp [World.toYamlString, World.toYaml, w.yaml.empty_emit]
  rw [World.loadFromString, if_neg hempty, World.toYamlString, w.yaml.load_emit]
  simp only [World.loadFromYaml, hinclude, hexclude]
  by_cases hnoInclude : (c.patterns.filter (·.isInclude)).isEmpty = true
  · rw [if_pos hnoInclude, if_pos hnoInclude]
  · rw [if_neg hnoInclude, if_neg hnoInclude]
    by_cases hnoExclude : (c.patterns.filter (!·.isInclude)).isEmpty = true
    · rw [if_pos hnoExclude, if_pos hnoExclude]
    · rw [if_neg hnoExclude, if_neg hnoExclude]
      exact loadSettings_toYaml w c _

/-! ### When every path is judged as before -/

/-- The two saved lists have the patterns of the one they are from. -/
theorem rereads_split (w : World τ) (patterns : List PathPattern) :
    (w.rereads (patterns.filter (·.isInclude)) ++
      w.rereads (patterns.filter (!·.isInclude))).Perm (w.rereads patterns) := by
  rw [World.rereads, World.rereads, ← List.filterMap_append]
  exact (List.filter_append_perm _ patterns).filterMap _

/-- A path is judged by the first match, or by how many patterns there are. -/
theorem judged_eq (w : World τ) (patterns : List PathPattern) (path : List Char) :
    (if patterns.isEmpty then trackedByDefault path else w.verdict patterns path) =
      ((patterns.find? (w.matchesPath path)).map PathPattern.isInclude).getD
        (if patterns.isEmpty then trackedByDefault path else false) := by
  by_cases hempty : patterns.isEmpty = true
  · rw [List.isEmpty_iff.mp hempty]
    rfl
  · rw [if_neg hempty, if_neg hempty, World.verdict]

/-- **A path after a load**: it is judged as before, for every order of equal lengths, exactly
if the verdicts are the same. -/
theorem judged_sorted_iff (w : World τ) (c : CaeConfig) (path : List Char)
    {patterns : List PathPattern} (hperm : patterns.Perm (w.rereads c.patterns)) :
    (∀ std : PatternSort, (if (std.sort patterns).isEmpty then trackedByDefault path
        else w.verdict (std.sort patterns) path) = w.verdict c.patterns path) ↔
      w.SameVerdict c path := by
  have hempty : ∀ std : PatternSort, (std.sort patterns).isEmpty =
      (w.rereads c.patterns).isEmpty := fun std => by
    rw [Bool.eq_iff_iff, List.isEmpty_iff_length_eq_zero, List.isEmpty_iff_length_eq_zero,
      ((std.perm patterns).trans hperm).length_eq]
  have hjudged : ∀ std : PatternSort, (if (std.sort patterns).isEmpty then trackedByDefault path
      else w.verdict (std.sort patterns) path) =
        (((std.sort patterns).find? (w.matchesPath path)).map PathPattern.isInclude).getD
          (if (w.rereads c.patterns).isEmpty then trackedByDefault path else false) := fun std => by
    rw [judged_eq, hempty]
  simp only [hjudged]
  rw [decides_iff]
  constructor
  · rintro ⟨htop, hnone⟩
    exact ⟨fun p hp => htop p ((Top.congr fun _ => hperm.mem_iff).mpr hp),
      fun h => hnone fun p hp => h p (hperm.mem_iff.mp hp)⟩
  · intro h
    exact ⟨fun p hp => h.matched p ((Top.congr fun _ => hperm.mem_iff).mp hp),
      fun hnone => h.unmatched fun p hp => hnone p (hperm.mem_iff.mpr hp)⟩

/-- Nothing is tracked while interception is off or the manager is not ready. -/
theorem isPathTracked_eq (w : World τ) (c : CaeConfig) (path : List Char) :
    w.isPathTracked c path =
      if c.interceptionEnabled = true ∧ w.cteManager ≠ some false then
        if c.patterns.isEmpty then trackedByDefault path else w.verdict c.patterns path
      else false := by
  unfold World.isPathTracked
  by_cases henabled : c.interceptionEnabled = true
  · by_cases hmanager : w.cteManager = some false
    · simp [henabled, hmanager]
    · simp [henabled, hmanager]
  · simp [henabled]

/-! ### The round trip -/

theorem filter_isEmpty_iff (patterns : List PathPattern) (keep : PathPattern → Bool) :
    (patterns.filter keep).isEmpty = true ↔ ¬ ∃ p ∈ patterns, keep p = true := by
  rw [List.isEmpty_iff, List.filter_eq_nil_iff]
  push Not
  rfl

/-- A saved configuration is loaded if it has patterns of both kinds. -/
theorem loads_iff (w : World τ) (std : PatternSort) (c into : CaeConfig) :
    (w.loadFromString std (w.toYamlString c) into).1 = true ↔
      (∃ p ∈ c.patterns, p.isInclude = true) ∧ ∃ p ∈ c.patterns, p.isInclude = false := by
  have hinclude := filter_isEmpty_iff c.patterns (·.isInclude)
  have hexclude := filter_isEmpty_iff c.patterns (!·.isInclude)
  simp only [Bool.not_eq_true'] at hexclude
  rw [loadFromString_toYamlString]
  by_cases hnoInclude : (c.patterns.filter (·.isInclude)).isEmpty = true
  · rw [if_pos hnoInclude]
    exact ⟨fun h => (by cases h), fun h => absurd h.1 (hinclude.mp hnoInclude)⟩
  · rw [if_neg hnoInclude]
    by_cases hnoExclude : (c.patterns.filter (!·.isInclude)).isEmpty = true
    · rw [if_pos hnoExclude]
      exact ⟨fun h => (by cases h), fun h => absurd h.2 (hexclude.mp hnoExclude)⟩
    · rw [if_neg hnoExclude]
      exact ⟨fun _ => ⟨not_not.mp (mt hinclude.mpr hnoInclude),
        not_not.mp (mt hexclude.mpr hnoExclude)⟩, fun _ => rfl⟩

/-- What is then loaded. -/
theorem loaded_eq {std : PatternSort} {c into : CaeConfig}
    (hload : (w.loadFromString std (w.toYamlString c) into).1 = true) :
    (w.loadFromString std (w.toYamlString c) into).2 =
      { patterns := std.sort (w.rereads (c.patterns.filter (·.isInclude)) ++
          w.rereads (c.patterns.filter (!·.isInclude))),
        adapterPageSize := if c.adapterPageSize = 0 then 4096 else c.adapterPageSize,
        interceptionEnabled := c.interceptionEnabled } := by
  rw [loadFromString_toYamlString] at hload ⊢
  split at hload
  · cases hload
  · split at hload
    · cases hload
    · rename_i hnoInclude hnoExclude
      rw [if_neg hnoInclude, if_neg hnoExclude]

/-- How a path is judged after a load, if there is one. -/
theorem isPathTracked_loaded {std : PatternSort} {c into : CaeConfig}
    (hload : (w.loadFromString std (w.toYamlString c) into).1 = true) (path : List Char) :
    w.isPathTracked (w.loadFromString std (w.toYamlString c) into).2 path =
      (fun patterns : List PathPattern =>
        if c.interceptionEnabled = true ∧ w.cteManager ≠ some false then
          if patterns.isEmpty then trackedByDefault path else w.verdict patterns path
        else false)
      (std.sort (w.rereads (c.patterns.filter (·.isInclude)) ++
        w.rereads (c.patterns.filter (!·.isInclude)))) := by
  rw [isPathTracked_eq, loaded_eq hload]

/--
**When an adapter configuration survives saving and loading.**  It has patterns of both
kinds, and for every path the longest patterns that match it once they were reread say what
the first match says now.
-/
theorem roundTrips_iff (w : World τ) (c : CaeConfig) : w.RoundTrips c ↔ w.Keeps c := by
  by_cases hkinds : (∃ p ∈ c.patterns, p.isInclude = true) ∧ ∃ p ∈ c.patterns, p.isInclude = false
  · have hload : ∀ std into, (w.loadFromString std (w.toYamlString c) into).1 = true :=
      fun std into => (loads_iff w std c into).mpr hkinds
    have hfull : ¬ c.patterns.isEmpty = true := fun h => by
      obtain ⟨p, hp, -⟩ := hkinds.1
      rw [List.isEmpty_iff.mp h] at hp
      cases hp
    have htracked : w.RoundTrips c ↔ ∀ path, ∀ std : PatternSort, ∀ into,
        w.isPathTracked (w.loadFromString std (w.toYamlString c) into).2 path =
          w.isPathTracked c path :=
      ⟨fun h path std into => (h std into).2 path,
        fun h std into => ⟨hload std into, fun path => h path std into⟩⟩
    have hkeeps : w.Keeps c ↔ (c.interceptionEnabled = true ∧ w.cteManager ≠ some false →
        ∀ path, w.SameVerdict c path) :=
      ⟨fun h hon => h.verdicts hon.1 hon.2, fun h => ⟨hkinds.1, hkinds.2, fun hon hm => h ⟨hon, hm⟩⟩⟩
    have hsome : Nonempty CaeConfig := ⟨c⟩
    rw [htracked, hkeeps]
    simp only [fun std into => isPathTracked_loaded (hload std into), isPathTracked_eq w c,
      if_neg hfull, forall_const]
    by_cases hon : c.interceptionEnabled = true ∧ w.cteManager ≠ some false
    · simp only [if_pos hon, imp_iff_right hon]
      exact forall_congr' fun path => judged_sorted_iff w c path (rereads_split w c.patterns)
    · simp only [if_neg hon, implies_true, true_iff]
      exact fun h => absurd h hon
  · constructor
    · intro h
      exact absurd ((loads_iff w (sortDesc _) c c).mp (h (sortDesc _) c).1) hkinds
    · intro h
      exact absurd ⟨h.includes, h.excludes⟩ hkinds

/-! ### Reachable configurations -/

/-- The configurations that loads, also failed ones, and changes of the patterns lead to. -/
inductive World.Reachable (w : World τ) : CaeConfig → Prop
  | new : Reachable w .new
  | load (std : PatternSort) (config : Yaml) {c : CaeConfig} (h : Reachable w c) :
      Reachable w (w.loadFromYaml std config c).2
  | addInclude (std : PatternSort) (pattern : List Char) {c : CaeConfig} (h : Reachable w c) :
      Reachable w (c.addIncludePattern std pattern)
  | addExclude (std : PatternSort) (pattern : List Char) {c : CaeConfig} (h : Reachable w c) :
      Reachable w (c.addExcludePattern std pattern)
  | clear {c : CaeConfig} (h : Reachable w c) : Reachable w c.clearPatterns

/-! ### Configurations that are not kept -/

/-- A YAML library that writes nodes as they are, with decimal numbers. -/
def nodeYaml : YamlCpp Yaml where
  emit := id
  load := some
  empty _ := false
  sizeText n := Nat.toDigits 10 n.toNat
  asSize text := some (UInt64.ofNat (Nat.ofDigitChars 10 text 0))
  boolText b := if b then "true".toList else "false".toList
  asBool text :=
    if text = "true".toList then some true
    else if text = "false".toList then some false
    else none
  load_emit _ := rfl
  empty_emit _ := rfl
  asSize_sizeText n := by rw [Nat.ofDigitChars_ten_toDigits, UInt64.ofNat_toNat]
  asBool_boolText b := by cases b <;> rfl

/-- No variable is set, and patterns are plain characters. -/
def plainWorld : World Yaml where
  yaml := nodeYaml
  getenv _ := []
  regexSearch pattern path := some (decide (pattern <:+: path))
  cteManager := none

/-- Only an include pattern. -/
def includeOnly : CaeConfig := CaeConfig.new.addIncludePattern (sortDesc _) "/data".toList

/-- An exclude and an include pattern of one length. -/
def twoKinds : CaeConfig :=
  (CaeConfig.new.addExcludePattern (sortDesc _) "/temp".toList).addIncludePattern (sortDesc _)
    "/data".toList

/-- A saved configuration without exclude patterns is not loaded, and one with patterns of one
length tracks a path that it excluded. -/
theorem saved_not_restored :
    plainWorld.Reachable includeOnly ∧ ¬ plainWorld.RoundTrips includeOnly ∧
      plainWorld.Reachable twoKinds ∧
      plainWorld.isPathTracked twoKinds "/data/temp".toList = false ∧
      plainWorld.isPathTracked (plainWorld.loadFromString (sortDesc _)
        (plainWorld.toYamlString twoKinds) twoKinds).2 "/data/temp".toList = true ∧
      ¬ plainWorld.RoundTrips twoKinds := by
  have hnotLoaded : (plainWorld.loadFromString (sortDesc _) (plainWorld.toYamlString includeOnly)
      includeOnly).1 = false := by decide +kernel
  have hbefore : plainWorld.isPathTracked twoKinds "/data/temp".toList = false := by
    decide +kernel
  have hafter : plainWorld.isPathTracked (plainWorld.loadFromString (sortDesc _)
      (plainWorld.toYamlString twoKinds) twoKinds).2 "/data/temp".toList = true := by
    decide +kernel
  refine ⟨.addInclude _ _ .new, fun h => ?_, .addInclude _ _ (.addExclude _ _ .new), hbefore,
    hafter, fun h => ?_⟩
  · exact absurd (hnotLoaded.symm.trans (h (sortDesc _) includeOnly).1) (by decide)
  · have hsame := (h (sortDesc _) twoKinds).2 "/data/temp".toList
    exact absurd (hbefore.symm.trans (hsame.symm.trans hafter)) (by decide)

end IowarpCore.Adapter
