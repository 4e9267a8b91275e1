/-
When the tree that FUSE shows is the tree of the tags.

A path is looked up with one query and a directory is listed with two, and each query is a
pattern of its own.  The escaped path stands for itself, so all of them come down to how a
name of a tag splits: the path and its slash, then a component, then maybe a slash and the
rest.  The lookup of a directory and the listing of subdirectories end in the same `.*`, and
so they agree on every set of tags.  They do not agree with the tags: the dot of ECMAScript
takes no line terminator, so a tag with one below a directory is no sign of that directory.
-/
import Mathlib.Data.List.Nodup
import IowarpCore.Adapter.Namespace

namespace IowarpCore
namespace Adapter

open Regex (Token Atom Term parse tokenize quantify runs regexMatch lineTerminator)

/-! ### Escaped strings -/

theorem regexEscape_cons (c : Char) (s : List Char) :
    regexEscape (c :: s) = (if escaped c then ['\\', c] else [c]) ++ regexEscape s :=
  List.flatMap_cons ..

theorem regexEscape_append (s r : List Char) :
    regexEscape (s ++ r) = regexEscape s ++ regexEscape r :=
  List.flatMap_append ..

/-- The scanner finds the characters of an escaped string. -/
theorem tokenize_regexEscape (s r : List Char) :
    tokenize (regexEscape s ++ r) =
      (tokenize r).map (s.map (Token.atom ∘ Atom.char) ++ ·) := by
  induction s with
  | nil => simp [regexEscape]
  | cons c s ih =>
    rw [regexEscape_cons, List.append_assoc]
    cases hc : escaped c with
    | true =>
      rw [if_pos rfl, List.cons_append, List.cons_append, List.nil_append,
        Regex.tokenize_escaped _ hc, ih, Option.map_map]
      rfl
    | false =>
      rw [if_neg Bool.false_ne_true, List.cons_append, List.nil_append,
        Regex.tokenize_ordinary _ hc, ih, Option.map_map]
      rfl

variable {ts : List Term} {s y : List Char} {start : Bool}

/-- The pattern of an escaped string and of what is parsed after it. -/
theorem parse_regexEscape (s : List Char) {r : List Char} {tokens : List Token} (hr : tokenize r = some tokens) (hts : quantify tokens = some ts)
    (hstar : tokens.head? ≠ some .star) (hplus : tokens.head? ≠ some .plus) :
    parse (regexEscape s ++ r) = some (s.map (Term.one ∘ Atom.char) ++ ts) := by
  unfold parse
  rw [tokenize_regexEscape, hr, Option.map_some, Option.bind_some,
    Regex.quantify_chars s hstar hplus, hts, Option.map_some]

/-- The same with `^` before it. -/
theorem parse_anchored (s : List Char) {r : List Char} {tokens : List Token} (hr : tokenize r = some tokens) (hts : quantify tokens = some ts)
    (hstar : tokens.head? ≠ some .star) (hplus : tokens.head? ≠ some .plus) :
    parse ('^' :: regexEscape s ++ r) =
      some (.bol :: (s.map (Term.one ∘ Atom.char) ++ ts)) := by
  rw [List.cons_append, Regex.parse_bol, parse_regexEscape s hr hts hstar hplus, Option.map_some]

theorem getLast?_regexEscape (s : List Char) : (regexEscape s).getLast? = s.getLast? := by
  rcases List.eq_nil_or_concat s with rfl | ⟨s, c, rfl⟩
  · rfl
  · rw [List.concat_eq_append, regexEscape_append, List.getLast?_concat]
    cases hc : escaped c with
    | true => simp [regexEscape, hc]
    | false => simp [regexEscape, hc]

theorem regexEscape_eq_nil_iff : regexEscape s = [] ↔ s = [] := by
  rw [← List.getLast?_eq_none_iff, getLast?_regexEscape, List.getLast?_eq_none_iff]

theorem trailingSlash_regexEscape (s : List Char) :
    trailingSlash (regexEscape s) = regexEscape (trailingSlash s) := by
  unfold trailingSlash
  simp only [getLast?_regexEscape, ne_eq, regexEscape_eq_nil_iff]
  split
  · rw [regexEscape_append]
    rfl
  · rfl

theorem prefixLen_eq (s : List Char) : prefixLen s = (trailingSlash s).length := by
  unfold prefixLen trailingSlash
  split
  · rw [List.length_append, List.length_singleton]
  · rfl

/-! ### Queries -/

theorem upTo_append_upTo (maxTags : Nat) (a b : List (List Char)) :
    upTo maxTags (upTo maxTags a ++ upTo maxTags b) = upTo maxTags (a ++ b) := by
  unfold upTo
  split
  · rfl
  · rw [List.take_append, List.take_append, List.take_take, List.take_take, Nat.min_self,
      List.length_take]
    congr 2
    omega

theorem upTo_eq_nil_iff {maxTags : Nat} {a : List (List Char)} : upTo maxTags a = [] ↔ a = [] := by
  unfold upTo
  split
  · exact Iff.rfl
  · rename_i hmax
    rw [List.take_eq_nil_iff]
    exact or_iff_right hmax

section

variable {ns : Namespace} {tagRegex : List Char} {pattern : List Term}

/-- The names of the tags that match, in their order. -/
def Namespace.matching (ns : Namespace) (pattern : List Term) : List (List Char) :=
  (ns.tags.map TagName.chars).filter (regexMatch pattern)

/-- A broadcast query is a query of all tags. -/
theorem tagQuery_of_parse (ns : Namespace) (maxTags : Nat) (h : parse tagRegex = some pattern) :
    (ns.tagQuery tagRegex maxTags).returnCode = 0 ∧
      (ns.tagQuery tagRegex maxTags).results = upTo maxTags (ns.matching pattern) := by
  -- After any of the replies the results are those of the containers so far.
  have hfold : ∀ (cs : List (List TagName)) (seen : List (List Char)) (total : Nat),
      ((cs.map fun tags => TagQuery tags tagRegex maxTags).foldl
          (TagQueryTask.aggregate maxTags) ⟨0, total, upTo maxTags seen⟩).returnCode = 0 ∧
        ((cs.map fun tags => TagQuery tags tagRegex maxTags).foldl
          (TagQueryTask.aggregate maxTags) ⟨0, total, upTo maxTags seen⟩).results =
        upTo maxTags
          (seen ++ (cs.flatten.map TagName.chars).filter (regexMatch pattern)) := by
    intro cs
    induction cs with
    | nil =>
      intro seen total
      simp
    | cons tags cs ih =>
      intro seen total
      have hquery : TagQuery tags tagRegex maxTags =
          ⟨0, ((tags.map TagName.chars).filter (regexMatch pattern)).length,
            upTo maxTags ((tags.map TagName.chars).filter (regexMatch pattern))⟩ := by
        unfold TagQuery
        rw [h]
      rw [List.map_cons, List.foldl_cons, hquery, TagQueryTask.aggregate, if_pos rfl,
        upTo_append_upTo, List.flatten_cons, List.map_append, List.filter_append,
        ← List.append_assoc]
      exact ih _ _
  have hnil : upTo maxTags [] = [] := upTo_eq_nil_iff.mpr rfl
  have hall := hfold ns.containers [] 0
  rw [hnil, List.nil_append] at hall
  exact hall

theorem mem_matching_iff {x : List Char} :
    x ∈ ns.matching pattern ↔ ∃ t ∈ ns.tags, t.chars = x ∧ regexMatch pattern x = true := by
  unfold Namespace.matching
  rw [List.mem_filter, List.mem_map]
  constructor
  · rintro ⟨⟨t, ht, rfl⟩, hx⟩
    exact ⟨t, ht, rfl, hx⟩
  · rintro ⟨t, ht, rfl, hx⟩
    exact ⟨⟨t, ht, rfl⟩, hx⟩

theorem matching_nodup (ns : Namespace) (pattern : List Term) :
    (ns.matching pattern).Nodup := by
  refine List.Nodup.filter _ (ns.nodup.map ?_)
  intro t u h
  cases t
  cases u
  cases h
  rfl

/-- A query for one tag asks whether there is one. -/
theorem query_one_iff (h : parse tagRegex = some pattern) :
    ((ns.tagQuery tagRegex 1).returnCode = 0 ∧ (ns.tagQuery tagRegex 1).results ≠ []) ↔
      ∃ t ∈ ns.tags, regexMatch pattern t.chars = true := by
  obtain ⟨hrc, hres⟩ := tagQuery_of_parse ns 1 h
  rw [hrc, hres, ne_eq, upTo_eq_nil_iff, eq_self, true_and]
  constructor
  · intro hne
    obtain ⟨x, hx⟩ := List.exists_mem_of_ne_nil _ hne
    obtain ⟨t, ht, rfl, hmatch⟩ := mem_matching_iff.mp hx
    exact ⟨t, ht, hmatch⟩
  · rintro ⟨t, ht, hmatch⟩
    exact List.ne_nil_of_mem (mem_matching_iff.mpr ⟨t, ht, rfl, hmatch⟩)

end

/-! ### The four patterns -/

/-- No line terminator. -/
def OneLine (s : List Char) : Prop :=
  ∀ c ∈ s, lineTerminator c = false

instance : DecidablePred OneLine := fun s =>
  inferInstanceAs (Decidable (∀ c ∈ s, lineTerminator c = false))

theorem regexMatch_exact_iff {x : List Char} :
    regexMatch (s.map (Term.one ∘ Atom.char) ++ []) x = true ↔ x = s := by
  unfold regexMatch
  rw [Regex.runs_chars_iff]
  constructor
  · rintro ⟨y, rfl, hy⟩
    rw [List.isEmpty_iff.mp hy, List.append_nil]
  · rintro rfl
    exact ⟨[], (List.append_nil x).symm, rfl⟩

/-- A pattern that begins with `^` and an escaped string. -/
theorem regexMatch_anchored_iff {x : List Char} :
    regexMatch (.bol :: (s.map (Term.one ∘ Atom.char) ++ ts)) x = true ↔
      ∃ y, x = s ++ y ∧ runs ts s.isEmpty y = true := by
  unfold regexMatch
  rw [Regex.runs_bol, Bool.true_and, Regex.runs_chars_iff, Bool.true_and]

theorem runs_any_star_iff :
    runs [.star .any] start y = true ↔ OneLine y := by
  rw [Regex.runs_star_last_iff]
  simp only [Atom.accepts, Bool.not_eq_true']
  rfl

theorem runs_component_iff :
    runs [.plus (.notIn '/'), .eol] start y = true ↔ y ≠ [] ∧ '/' ∉ y := by
  rw [Regex.runs_plus_iff]
  constructor
  · rintro ⟨a, b, rfl, hne, ha, hb⟩
    rw [Regex.runs_eol, Bool.and_eq_true, List.isEmpty_iff] at hb
    rw [hb.1, List.append_nil]
    exact ⟨hne, fun hmem => bne_iff_ne.mp (ha _ hmem) rfl⟩
  · rintro ⟨hne, hslash⟩
    exact ⟨y, [], (List.append_nil y).symm, hne,
      fun c hc => bne_iff_ne.mpr (ne_of_mem_of_not_mem hc hslash), rfl⟩

theorem runs_component_below_iff :
    runs [.plus (.notIn '/'), .one (.char '/'), .star .any] start y = true ↔
      ∃ a b, y = a ++ '/' :: b ∧ a ≠ [] ∧ '/' ∉ a ∧ OneLine b := by
  have hrest : ∀ z, runs [.one (.char '/'), .star .any] false z = true ↔
      ∃ b, z = '/' :: b ∧ OneLine b := by
    intro z
    have hchars : runs (['/'].map (Term.one ∘ Atom.char) ++ [.star .any]) false z = true ↔
        ∃ b, z = ['/'] ++ b ∧ runs [.star .any] (false && ['/'].isEmpty) b = true :=
      Regex.runs_chars_iff ['/']
    simp only [runs_any_star_iff] at hchars
    exact hchars
  rw [Regex.runs_plus_iff]
  simp only [hrest]
  constructor
  · rintro ⟨a, z, rfl, hne, ha, b, rfl, hb⟩
    exact ⟨a, b, rfl, hne, fun hmem => bne_iff_ne.mp (ha _ hmem) rfl, hb⟩
  · rintro ⟨a, b, rfl, hne, hslash, hb⟩
    exact ⟨a, '/' :: b, rfl, hne,
      fun c hc => bne_iff_ne.mpr (ne_of_mem_of_not_mem hc hslash), b, rfl, hb⟩

/-! ### Paths -/

/-- What the names of the tags below a path begin with. -/
def Path.under (p : Path) : List Char :=
  p.slashed ++ ['/']

theorem Path.slashed_concat (p : Path) (c : Component) :
    Path.slashed (p ++ [c]) = p.under ++ c.chars := by
  unfold Path.under Path.slashed
  rw [List.flatMap_append, List.flatMap_singleton, List.append_assoc]
  rfl

theorem Path.render_entry (p : Path) (n : FileName) :
    (p.entry n).render = p.under ++ n.chars := by
  unfold Path.entry Path.render
  rw [if_neg (by simp), Path.slashed_concat]

theorem Path.under_entry (p : Path) (n : FileName) :
    (p.entry n).under = p.under ++ n.chars ++ ['/'] := by
  unfold Path.entry
  rw [Path.under, Path.slashed_concat]

theorem trailingSlash_render (p : Path) : trailingSlash p.render = p.under := by
  rcases List.eq_nil_or_concat p with rfl | ⟨p, c, rfl⟩
  · rfl
  · rw [List.concat_eq_append, Path.render, if_neg (by simp), Path.under]
    refine if_pos ⟨?_, ?_⟩
    · rw [Path.slashed_concat]
      simp [Path.under]
    · rw [Path.slashed_concat, List.getLast?_append_of_ne_nil _ c.nonempty]
      exact fun hlast => c.noSlash (List.mem_of_getLast? hlast)

/-! ### Lookup -/

section

variable {ns : Namespace} {p : Path}

theorem CteTagExists_iff {s : List Char} :
    CteTagExists ns s = true ↔ ∃ t ∈ ns.tags, t.chars = s := by
  have hparse : parse (regexEscape s) = some (s.map (Term.one ∘ Atom.char) ++ []) := by
    have := parse_regexEscape s (r := []) rfl rfl (by simp) (by simp)
    rwa [List.append_nil] at this
  unfold CteTagExists
  rw [decide_eq_true_iff, query_one_iff hparse]
  simp only [regexMatch_exact_iff]

/-- The pattern of a query about a directory. -/
theorem parse_directory (p : Path) {r : List Char} {tokens : List Token} {ts : List Term}
    (hr : tokenize r = some tokens) (hts : quantify tokens = some ts)
    (hstar : tokens.head? ≠ some .star) (hplus : tokens.head? ≠ some .plus) :
    parse ('^' :: trailingSlash (regexEscape p.render) ++ r) =
      some (.bol :: (p.under.map (Term.one ∘ Atom.char) ++ ts)) := by
  rw [trailingSlash_regexEscape, trailingSlash_render]
  exact parse_anchored p.under hr hts hstar hplus

theorem CteDirExists_iff :
    CteDirExists ns p.render = true ↔ ∃ t ∈ ns.tags, ∃ y, t.chars = p.under ++ y ∧ OneLine y := by
  unfold CteDirExists
  rw [decide_eq_true_iff,
    query_one_iff (parse_directory p (r := ['.', '*']) rfl rfl (by decide) (by decide))]
  simp only [regexMatch_anchored_iff, runs_any_star_iff]

/-! ### Listings -/

theorem prefixLen_render (p : Path) : prefixLen p.render = p.under.length := by
  rw [prefixLen_eq, trailingSlash_render]

theorem CteListDirectChildren_eq (ns : Namespace) (p : Path) :
    CteListDirectChildren ns p.render =
      (ns.matching (.bol :: (p.under.map (Term.one ∘ Atom.char) ++
        [.plus (.notIn '/'), .eol]))).map (List.drop p.under.length) := by
  obtain ⟨hrc, hres⟩ := tagQuery_of_parse ns 0
    (parse_directory p (r := ['[', '^', '/', ']', '+', '$']) rfl rfl (by decide) (by decide))
  unfold CteListDirectChildren
  rw [prefixLen_render]
  simp only [hrc, hres, upTo, ne_eq, not_true_eq_false, if_true, if_false]
  -- A component has characters, so the test on the length passes.
  congr 1
  refine List.filter_eq_self.mpr ?_
  intro x hx
  obtain ⟨t, -, -, hmatch⟩ := mem_matching_iff.mp hx
  obtain ⟨y, rfl, hy⟩ := regexMatch_anchored_iff.mp hmatch
  have hne := (runs_component_iff.mp hy).1
  have := List.length_pos_iff.mpr hne
  simp only [List.length_append, decide_eq_true_eq]
  omega

variable {x a b : List Char} {subdirs : List (List Char)}

/-- The files of a directory are the tags of one component more. -/
theorem mem_CteListDirectChildren_iff :
    x ∈ CteListDirectChildren ns p.render ↔
      ∃ t ∈ ns.tags, t.chars = p.under ++ x ∧ x ≠ [] ∧ '/' ∉ x := by
  rw [CteListDirectChildren_eq, List.mem_map]
  simp only [mem_matching_iff, regexMatch_anchored_iff, runs_component_iff]
  constructor
  · rintro ⟨w, ⟨t, ht, htw, y, rfl, hy⟩, rfl⟩
    rw [List.drop_left]
    exact ⟨t, ht, htw, hy⟩
  · rintro ⟨t, ht, htx, hx⟩
    exact ⟨p.under ++ x, ⟨t, ht, htx, x, rfl, hx⟩, List.drop_left ..⟩

theorem nodup_CteListDirectChildren (ns : Namespace) (p : Path) :
    (CteListDirectChildren ns p.render).Nodup := by
  rw [CteListDirectChildren_eq]
  refine (matching_nodup ns _).map_on ?_
  intro x hx y hy hdrop
  obtain ⟨t, -, -, hmatchx⟩ := mem_matching_iff.mp hx
  obtain ⟨u, -, -, hmatchy⟩ := mem_matching_iff.mp hy
  obtain ⟨a, rfl, -⟩ := regexMatch_anchored_iff.mp hmatchx
  obtain ⟨b, rfl, -⟩ := regexMatch_anchored_iff.mp hmatchy
  rw [List.drop_left, List.drop_left] at hdrop
  rw [hdrop]

theorem nodup_addSubdir {dirPath fullPath : List Char}
    (h : subdirs.Nodup) : (addSubdir dirPath subdirs fullPath).Nodup := by
  unfold addSubdir
  dsimp only
  split
  · exact h
  · split
    · exact h
    · split
      · exact h
      · rename_i hnew
        rw [List.nodup_append]
        refine ⟨h, List.nodup_singleton _, ?_⟩
        intro a ha b hb
        rw [List.mem_singleton.mp hb]
        exact ne_of_mem_of_not_mem ha hnew

theorem takeWhile_component (h : '/' ∉ a) :
    (a ++ '/' :: b).takeWhile (· ≠ '/') = a := by
  rw [List.takeWhile_append_of_pos]
  · simp
  · intro c hc
    exact decide_eq_true (ne_of_mem_of_not_mem hc h)

/-- A path is cut at its first slash in one way. -/
theorem component_inj {y : List Char} (ha : '/' ∉ a) (hx : '/' ∉ x)
    (h : x ++ '/' :: y = a ++ '/' :: b) : x = a ∧ y = b := by
  have hxa : x = a := by
    rw [← takeWhile_component (b := y) hx, h, takeWhile_component ha]
  subst hxa
  exact ⟨rfl, (List.cons.inj (List.append_cancel_left h)).2⟩

/-- A path below a subdirectory adds the name of that subdirectory, and no other. -/
theorem mem_addSubdir_iff (h : '/' ∉ a) :
    x ∈ addSubdir p.render subdirs (p.under ++ (a ++ '/' :: b)) ↔ x ∈ subdirs ∨ x = a := by
  have hlength : ¬ (p.under ++ (a ++ '/' :: b)).length ≤ p.under.length := by
    simp only [List.length_append, List.length_cons]
    omega
  unfold addSubdir
  dsimp only
  rw [prefixLen_render, List.drop_left, takeWhile_component h, if_neg hlength, if_neg (by simp)]
  split
  · rename_i hmem
    exact ⟨Or.inl, fun hx => hx.elim id fun hx => hx ▸ hmem⟩
  · rw [List.mem_append, List.mem_singleton]

/-- The loop collects the component after the directory of every path. -/
theorem mem_foldl_addSubdir_iff {paths : List (List Char)}
    (h : ∀ w ∈ paths, ∃ a b, w = p.under ++ (a ++ '/' :: b) ∧ '/' ∉ a) :
    x ∈ paths.foldl (addSubdir p.render) subdirs ↔
      x ∈ subdirs ∨ '/' ∉ x ∧ ∃ b, p.under ++ (x ++ '/' :: b) ∈ paths := by
  induction paths generalizing subdirs with
  | nil => simp
  | cons w paths ih =>
    obtain ⟨a, b, rfl, ha⟩ := h w List.mem_cons_self
    rw [List.foldl_cons, ih fun v hv => h v (List.mem_cons_of_mem _ hv), mem_addSubdir_iff ha,
      or_assoc]
    refine or_congr_right ?_
    constructor
    · rintro (rfl | ⟨hx, c, hc⟩)
      · exact ⟨ha, b, List.mem_cons_self⟩
      · exact ⟨hx, c, List.mem_cons_of_mem _ hc⟩
    · rintro ⟨hx, c, hc⟩
      rcases List.mem_cons.mp hc with heq | hc
      · exact Or.inl (component_inj ha hx (List.append_cancel_left heq)).1
      · exact Or.inr ⟨hx, c, hc⟩

theorem CteListSubdirs_eq (ns : Namespace) (p : Path) :
    CteListSubdirs ns p.render =
      (ns.matching (.bol :: (p.under.map (Term.one ∘ Atom.char) ++
        [.plus (.notIn '/'), .one (.char '/'), .star .any]))).foldl (addSubdir p.render) [] := by
  obtain ⟨-, hres⟩ := tagQuery_of_parse ns 0
    (parse_directory p (r := ['[', '^', '/', ']', '+', '/', '.', '*']) rfl rfl (by decide)
      (by decide))
  unfold CteListSubdirs
  dsimp only
  rw [hres, upTo, if_pos rfl]

/-- The subdirectories are the components that have a tag of one line below them. -/
theorem mem_CteListSubdirs_iff :
    x ∈ CteListSubdirs ns p.render ↔
      ∃ t ∈ ns.tags, ∃ y, t.chars = p.under ++ (x ++ '/' :: y) ∧
        x ≠ [] ∧ '/' ∉ x ∧ OneLine y := by
  have hmatching : ∀ w, w ∈ ns.matching (.bol :: (p.under.map (Term.one ∘ Atom.char) ++
      [.plus (.notIn '/'), .one (.char '/'), .star .any])) ↔
      ∃ t ∈ ns.tags, t.chars = w ∧
        ∃ a b, w = p.under ++ (a ++ '/' :: b) ∧ a ≠ [] ∧ '/' ∉ a ∧ OneLine b := by
    intro w
    simp only [mem_matching_iff, regexMatch_anchored_iff, runs_component_below_iff]
    constructor
    · rintro ⟨t, ht, htw, y, rfl, a, b, rfl, hab⟩
      exact ⟨t, ht, htw, a, b, rfl, hab⟩
    · rintro ⟨t, ht, htw, a, b, rfl, hab⟩
      exact ⟨t, ht, htw, _, rfl, a, b, rfl, hab⟩
  rw [CteListSubdirs_eq, mem_foldl_addSubdir_iff]
  · constructor
    · rintro (hnil | ⟨hx, y, hy⟩)
      · cases hnil
      · obtain ⟨t, ht, htw, a, b, hab, hne, ha, hb⟩ := (hmatching _).mp hy
        obtain ⟨rfl, rfl⟩ := component_inj ha hx (List.append_cancel_left hab)
        exact ⟨t, ht, y, htw, hne, hx, hb⟩
    · rintro ⟨t, ht, y, hty, hne, hx, hy⟩
      exact Or.inr ⟨hx, y, (hmatching _).mpr ⟨t, ht, hty, x, y, rfl, hne, hx, hy⟩⟩
  · intro w hw
    obtain ⟨-, -, -, a, b, hab, -, ha, -⟩ := (hmatching w).mp hw
    exact ⟨a, b, hab, ha⟩

theorem nodup_CteListSubdirs (ns : Namespace) (p : Path) :
    (CteListSubdirs ns p.render).Nodup := by
  rw [CteListSubdirs_eq]
  refine List.foldlRecOn (motive := List.Nodup) _ _ List.nodup_nil ?_
  intro subdirs hsubdirs w _
  exact nodup_addSubdir hsubdirs

/-! ### The names of a directory -/

theorem cStr_of_tag {t : TagName} {y z : List Char} (h : t.chars = x ++ (y ++ z)) :
    cStr y = y := by
  have hchars : ∀ c ∈ y, decide (c ≠ '\x00') = true := by
    intro c hc
    have hmem : c ∈ t.chars := by
      rw [h]
      exact List.mem_append_right _ (List.mem_append_left _ hc)
    exact decide_eq_true (ne_of_mem_of_not_mem hmem t.noNul)
  unfold cStr
  conv_lhs => rw [← List.append_nil y]
  rw [List.takeWhile_append_of_pos hchars, List.takeWhile_nil, List.append_nil]

/-- The names that follow `.` and `..`. -/
def entries (ns : Namespace) (p : Path) : List (List Char) :=
  (readdir ns p.render).drop 2

theorem readdir_eq (ns : Namespace) (p : Path) :
    readdir ns p.render = ['.'] :: ['.', '.'] :: entries ns p := rfl

/-- The files, and the subdirectories that are not among them. -/
theorem entries_eq (ns : Namespace) (p : Path) :
    entries ns p = CteListDirectChildren ns p.render ++
      (CteListSubdirs ns p.render).filter (· ∉ CteListDirectChildren ns p.render) := by
  have hcStr : ∀ x, x ∈ CteListDirectChildren ns p.render ∨ x ∈ CteListSubdirs ns p.render →
      cStr x = x := by
    rintro x (hfile | hsubdir)
    · obtain ⟨t, -, ht, -⟩ := mem_CteListDirectChildren_iff.mp hfile
      refine cStr_of_tag (t := t) (x := p.under) (z := []) ?_
      rw [ht, List.append_nil]
    · obtain ⟨t, -, y, ht, -⟩ := mem_CteListSubdirs_iff.mp hsubdir
      exact cStr_of_tag ht
  unfold entries readdir
  dsimp only
  rw [List.drop_succ_cons, List.drop_succ_cons, List.drop_zero, ← List.map_append]
  conv_rhs => rw [← List.map_id (_ ++ _)]
  refine List.map_congr_left ?_
  intro x hx
  refine hcStr x ((List.mem_append.mp hx).imp_right ?_)
  exact fun h => (List.mem_filter.mp h).1

theorem mem_entries_iff :
    x ∈ entries ns p ↔
      x ∈ CteListDirectChildren ns p.render ∨ x ∈ CteListSubdirs ns p.render := by
  rw [entries_eq, List.mem_append, List.mem_filter, decide_eq_true_iff]
  tauto

theorem nodup_entries (ns : Namespace) (p : Path) : (entries ns p).Nodup := by
  rw [entries_eq]
  refine List.nodup_append.mpr ⟨nodup_CteListDirectChildren ns p,
    (nodup_CteListSubdirs ns p).filter _, ?_⟩
  intro a ha b hb
  exact ne_of_mem_of_not_mem ha (of_decide_eq_true (List.mem_filter.mp hb).2)

end

/-! ### The tree -/

/-- A tag lies strictly under a path. -/
def TagName.Under (t : TagName) (q : Path) : Prop :=
  q.under <+: t.chars

/-- What the calls owe to each other and to the tags, for the name `n` in the directory `p`. -/
structure Consistent (ns : Namespace) (p : Path) (n : FileName) : Prop where
  /-- The name is listed once if it can be looked up, and otherwise not at all. -/
  listed : (readdir ns p.render).count n.chars =
    if (getattr ns (p.entry n).render).isOk then 1 else 0
  /-- It is a directory if a tag lies strictly under it and no tag equals it. -/
  directory : (∃ st, getattr ns (p.entry n).render = .ok st ∧ st.isDir = true) ↔
    (∃ t ∈ ns.tags, t.Under (p.entry n)) ∧ ∀ t ∈ ns.tags, t.chars ≠ (p.entry n).render
  /-- Only the tags under the directory decide what is listed. -/
  outside : ∀ ns' : Namespace, (∀ t : TagName, t.Under p → (t ∈ ns'.tags ↔ t ∈ ns.tags)) →
    (readdir ns' p.render).Perm (readdir ns p.render)

section

variable {ns : Namespace} {p : Path} {n : FileName}

theorem getattr_entry (ns : Namespace) (p : Path) (n : FileName) :
    getattr ns (p.entry n).render =
      if CteTagExists ns (p.entry n).render then
        .ok ⟨sIfReg ||| 0o644, 1, ns.uid, ns.gid, ns.tagSize (p.entry n).render⟩
      else if CteDirExists ns (p.entry n).render then
        .ok ⟨sIfDir ||| 0o755, 2, ns.uid, ns.gid, 0⟩
      else .error .enoent := by
  refine if_neg ?_
  rw [Path.render_entry]
  intro hroot
  have hlength := congrArg List.length hroot
  have hn := List.length_pos_iff.mpr n.nonempty
  simp only [Path.under, List.length_append, List.length_singleton] at hlength
  omega

theorem getattr_isOk_iff :
    (getattr ns (p.entry n).render).isOk = true ↔
      CteTagExists ns (p.entry n).render = true ∨ CteDirExists ns (p.entry n).render = true := by
  rw [getattr_entry]
  cases CteTagExists ns (p.entry n).render <;> cases CteDirExists ns (p.entry n).render <;>
    simp [Except.isOk, Except.toBool]

theorem Stat.isDir_of_reg {st : Stat} (h : st.mode = sIfReg ||| 0o644) : st.isDir = false := by
  unfold Stat.isDir
  rw [h]
  decide

theorem Stat.isDir_of_dir {st : Stat} (h : st.mode = sIfDir ||| 0o755) : st.isDir = true := by
  unfold Stat.isDir
  rw [h]
  decide

theorem getattr_isDir_iff :
    (∃ st, getattr ns (p.entry n).render = .ok st ∧ st.isDir = true) ↔
      CteDirExists ns (p.entry n).render = true ∧ CteTagExists ns (p.entry n).render = false := by
  rw [getattr_entry]
  cases CteTagExists ns (p.entry n).render with
  | true =>
    simp only [if_true, Except.ok.injEq, exists_eq_left', Stat.isDir_of_reg]
    simp
  | false =>
    cases CteDirExists ns (p.entry n).render with
    | true =>
      simp only [if_true, Bool.false_eq_true, if_false, Except.ok.injEq, exists_eq_left',
        Stat.isDir_of_dir]
      simp
    | false => simp

/-- A name is listed when it can be looked up. -/
theorem mem_entries_iff_isOk :
    n.chars ∈ entries ns p ↔ (getattr ns (p.entry n).render).isOk = true := by
  rw [mem_entries_iff, getattr_isOk_iff, mem_CteListDirectChildren_iff, mem_CteListSubdirs_iff,
    CteTagExists_iff, CteDirExists_iff, Path.render_entry, Path.under_entry]
  refine or_congr ?_ ?_
  · simp [n.nonempty, n.noSlash]
  · simp [n.nonempty, n.noSlash]

theorem count_readdir (ns : Namespace) (p : Path) (n : FileName) :
    (readdir ns p.render).count n.chars =
      if (getattr ns (p.entry n).render).isOk then 1 else 0 := by
  rw [readdir_eq, List.count_cons_of_ne n.notDot.symm, List.count_cons_of_ne n.notDotDot.symm,
    (nodup_entries ns p).count]
  simp only [mem_entries_iff_isOk]

theorem readdir_perm {ns' : Namespace}
    (h : ∀ t : TagName, t.Under p → (t ∈ ns'.tags ↔ t ∈ ns.tags)) :
    (readdir ns' p.render).Perm (readdir ns p.render) := by
  rw [readdir_eq, readdir_eq]
  refine List.Perm.cons _ (List.Perm.cons _ ?_)
  rw [List.perm_ext_iff_of_nodup (nodup_entries ns' p) (nodup_entries ns p)]
  intro x
  rw [mem_entries_iff, mem_entries_iff, mem_CteListDirectChildren_iff,
    mem_CteListDirectChildren_iff, mem_CteListSubdirs_iff, mem_CteListSubdirs_iff]
  refine or_congr ?_ ?_
  · exact exists_congr fun t => and_congr_left fun ht => h t ⟨x, ht.1.symm⟩
  · refine exists_congr fun t => and_congr_left ?_
    rintro ⟨y, hy, -⟩
    exact h t ⟨x ++ '/' :: y, hy.symm⟩

/-- **The calls are consistent at a name that is no directory, or has a tag of one line below
it.**  What is listed is what can be looked up in any case. -/
theorem consistent_iff (ns : Namespace) (p : Path) (n : FileName) :
    Consistent ns p n ↔
      ((∃ t ∈ ns.tags, t.Under (p.entry n)) → (∀ t ∈ ns.tags, t.chars ≠ (p.entry n).render) →
        ∃ t ∈ ns.tags, ∃ y, t.chars = (p.entry n).under ++ y ∧ OneLine y) := by
  have htag : CteTagExists ns (p.entry n).render = false ↔
      ∀ t ∈ ns.tags, t.chars ≠ (p.entry n).render := by
    rw [← Bool.not_eq_true, CteTagExists_iff]
    simp only [not_exists, not_and, ne_eq]
  constructor
  · intro h hunder hno
    exact CteDirExists_iff.mp (getattr_isDir_iff.mp (h.directory.mpr ⟨hunder, hno⟩)).1
  · intro h
    refine ⟨count_readdir ns p n, ?_, fun ns' => readdir_perm⟩
    rw [getattr_isDir_iff, htag, CteDirExists_iff]
    constructor
    · rintro ⟨⟨t, ht, y, hy, -⟩, hno⟩
      exact ⟨⟨t, ht, y, hy.symm⟩, hno⟩
    · rintro ⟨hunder, hno⟩
      exact ⟨h hunder hno, hno⟩

/-- One tag, `/a/x` with a second line in its name. -/
def twoLines : Namespace where
  containers := [[⟨['/', 'a', '/', 'x', '\n', 'y'], rfl, by decide⟩]]
  nodup := by decide
  tagSize := fun _ => 0
  uid := 0
  gid := 0

def nameA : FileName :=
  ⟨⟨['a'], by decide, by decide, by decide⟩, by decide, by decide⟩

/-- The tag lies under `/a`, and a lookup of `/a` fails. -/
theorem not_consistent_two_lines :
    getattr twoLines (Path.entry [] nameA).render = .error .enoent ∧
      ¬ Consistent twoLines [] nameA := by
  have hlookup : getattr twoLines (Path.entry [] nameA).render = .error .enoent := by
    decide +kernel
  refine ⟨hlookup, ?_⟩
  intro h
  have hunder : ∃ t ∈ twoLines.tags, t.Under (Path.entry [] nameA) :=
    ⟨_, List.mem_cons_self, ['x', '\n', 'y'], rfl⟩
  obtain ⟨st, hst, -⟩ := h.directory.mpr ⟨hunder, by decide⟩
  rw [hlookup] at hst
  cases hst

end

end Adapter
end IowarpCore
