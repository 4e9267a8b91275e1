/-
The red-black tree is one, whatever is inserted and removed.

The fix-up loops walk up a path.  `fixInsertLoop` has a red node at its end whose parent may
be red too, `fixDeleteFromParent` a subtree that is one black node short; everything else is
in order, which is what `Fits` says.  A pass of a loop either ends with a tree that is
balanced as a whole, or goes on with a shorter path, so that a loop needs no more passes than
the path has steps.  The order of the entries does not change.
-/
import Mathlib.Data.Finset.Card
import IowarpCore.Proofs.RbMemory

namespace IowarpCore
namespace Shm
namespace RbTree

open RedBlack RedBlack.Tree RedBlack.Path

variable {K : Type} {s : RbTree K} {d : Side} {c : RBColor} {a b : Offset} {k k' : K}
  {x y z : Tree Offset K} {path : Path Offset K} {f : Step Offset K} {n : Nat}

/-- The memory is a red-black tree, and these are its nodes.  Parent links, keys and colors
are those of `t`, the root is black, no red node has a red child, all ways down pass as many
black nodes, and the keys rise from left to right. -/
structure Valid [LinearOrder K] (s : RbTree K) (t : Tree Offset K) : Prop where
  rep : Rep s [] t
  ordered : (t.entries.map Prod.fst).Pairwise (· < ·)
  balanced : ∃ m, t.Balanced m
  black : t.isRed = false
  size : s.size = t.entries.length

/-! ### Insertion -/

/-- Below a black node the loop has nothing to do. -/
theorem fixInsertLoop_stop {fuel : Nat} (h : Rep s (f :: path) (branch d c a k x y))
    (hblack : f.color = .black) : s.fixInsertLoop (fuel + 1) a = some s := by
  rw [fixInsertLoop, h.cell, cell_parent, parent_cons]
  simp only [h.up, cell_color, hblack, if_true]

/-- Case 1: the parent and the uncle become black and the grandparent red. -/
theorem Rep.recolor {g u : Offset} {kg ku : K} {e : Side} {ux uy : Tree Offset K}
    (h : Rep s path (branch d .black g kg (branch e .red b k' x y) (branch d .red u ku ux uy))) :
    Rep ((((s.setColor b .black).blacken (some u))).setColor g .red) path
      (branch d .red g kg (branch e .black b k' x y) (branch d .black u ku ux uy)) := by
  have h₁ := (h.down.setColor .black).climb
  have h₂ := (h₁.downFar.setColor .black).climbFar
  exact h₂.setColor .red

/-- Case 3: the parent goes up and the grandparent down, and they change colors. -/
theorem Rep.turnParent {g : Offset} {kg : K}
    (h : Rep s path (branch d .black g kg (branch d .red b k' x y) z)) :
    ∃ s', ((s.setColor b .black).setColor g .red).rotate d.other g = some s' ∧
      Rep s' path (branch d .black b k' x (branch d .red g kg y z)) ∧ s'.size = s.size := by
  have h₂ := (h.down.setColor .black).climb.setColor .red
  rw [← branch_other, ← @branch_other _ _ d .black b] at h₂
  obtain ⟨s', hrotate, hrep, hsize⟩ := h₂.rotate
  refine ⟨s', hrotate, ?_, hsize⟩
  rw [branch_other, branch_other] at hrep
  exact hrep

section

variable {e side : Side} {g : Offset} {kg : K} {u : Tree Offset K} {fuel : Nat}

/-- The node is an outer child: one rotation. -/
theorem turnNode_outer
    (h : Rep s (⟨e, .red, b, k', z⟩ :: ⟨e, .black, g, kg, u⟩ :: path) (branch d .red a k x y)) :
    ∃ s', s.turnNode e a b g = some (a, s') ∧
      Rep s' path (branch e .black b k' (branch d .red a k x y) (branch e .red g kg z u)) ∧
      s'.size = s.size := by
  have hne : z.root ≠ some a := by
    intro hroot
    exact h.apart.2.2 (mem_addrs_of_root root_branch)
      (mem_addrs_cons.mpr (Or.inr (Or.inl (mem_addrs_of_root hroot))))
  obtain ⟨s', hrotate, hrep, hsize⟩ := h.climb.climb.turnParent
  have hcolored := (h.climb.setColor .black).climb.setColor .red
  refine ⟨s', ?_, hrep, hsize⟩
  simp only [turnNode, h.up, cell_child_other, hne, if_false, Option.bind_eq_bind,
    Option.bind_some, hcolored.down.cell, cell_parent, parent_cons, hrotate]

/-- The node is an inner child: two rotations. -/
theorem turnNode_inner
    (h : Rep s (⟨e.other, .red, b, k', z⟩ :: ⟨e, .black, g, kg, u⟩ :: path) (branch e .red a k x y)) :
    ∃ s', s.turnNode e a b g = some (b, s') ∧
      Rep s' path (branch e .black a k (branch e .red b k' z x) (branch e .red g kg y u)) ∧
      s'.size = s.size := by
  obtain ⟨s₁, hfirst, hrep₁, hsize₁⟩ := h.climbFar.rotate
  obtain ⟨s', hrotate, hrep, hsize⟩ := hrep₁.climb.turnParent
  have hcolored := (hrep₁.setColor .black).climb.setColor .red
  have hchild : (s.mem b).child e.other = some a := by
    rw [h.climbFar.cell, cell_child_other, root_branch]
  refine ⟨s', ?_, hrep, hsize.trans hsize₁⟩
  simp only [turnNode, hchild, if_true, Option.bind_eq_bind, hfirst, Option.bind_some,
    hrep₁.down.cell, hrep₁.cell, cell_parent, parent_cons, hcolored.down.cell, hrotate]

/-- The parent is red: a pass of the loop looks at the uncle. -/
theorem fixInsertLoop_red
    (h : Rep s (⟨side, .red, b, k', z⟩ :: ⟨e, .black, g, kg, u⟩ :: path) (branch d .red a k x y)) :
    s.fixInsertLoop (fuel + 1) a =
      if u.isRed then
        (((s.setColor b .black).blacken u.root).setColor g .red).fixInsertLoop fuel g
      else
        (s.turnNode e a b g).bind fun next => next.2.fixInsertLoop fuel next.1 := by
  have hblack : s.isBlack u.root = !u.isRed := isBlack_of_holds h.climb.above.2.1
  have hup := h.up
  have hg := h.climb.up
  have hside := h.climb.sideOf root_branch
  dsimp only at hup hg hside
  rw [fixInsertLoop, h.cell, cell_parent, parent_cons]
  simp only [hup, cell_color, cell_parent, parent_cons, hside, hg, cell_child_other, hblack,
    reduceCtorEq, if_false]
  cases u.isRed <;> rfl

/-- The uncle is black: the loop ends with a tree that is in order. -/
theorem fixInsertLoop_turn
    (h : Rep s (⟨side, .red, b, k', z⟩ :: ⟨e, .black, g, kg, u⟩ :: path) (branch d .red a k x y))
    (hu : u.isRed = false) (hx : x.isRed = false) (hy : y.isRed = false) (hz : z.isRed = false)
    (hbx : x.Balanced n) (hby : y.Balanced n) (hbz : z.Balanced n) (hbu : u.Balanced n) :
    ∃ s' t, s.fixInsertLoop (fuel + 2) a = some s' ∧ Rep s' path t ∧ s'.size = s.size ∧
      t.entries = (branch e .black g kg (branch side .red b k' (branch d .red a k x y) z)
        u).entries ∧ t.Balanced (n + 1) ∧ t.isRed = false := by
  rw [fixInsertLoop_red h, hu]
  by_cases heq : side = e
  · subst heq
    obtain ⟨s', hturn, hrep, hsize⟩ := turnNode_outer h
    refine ⟨s', _, ?_, hrep, hsize, ?_, ?_, by simp⟩
    · simp only [Bool.false_eq_true, if_false, hturn, Option.bind_some]
      exact fixInsertLoop_stop hrep.down rfl
    · rw [← branch_other, ← @branch_other _ _ side .red g, entries_rotate side.other .red .black
        .black .red, branch_other, branch_other]
    · simp [*]
  · have hother := Side.eq_other_of_ne heq
    subst hother
    obtain ⟨x', y', hbranch, hx', hy', hbx', hby'⟩ : ∃ x' y',
        branch d .red a k x y = branch e .red a k x' y' ∧ x'.isRed = false ∧ y'.isRed = false ∧
          x'.Balanced n ∧ y'.Balanced n := by
      by_cases hde : d = e
      · exact ⟨x, y, by rw [hde], hx, hy, hbx, hby⟩
      · exact ⟨y, x, by rw [Side.eq_other_of_ne hde, branch_other], hy, hx, hby, hbx⟩
    rw [hbranch] at h ⊢
    obtain ⟨s', hturn, hrep, hsize⟩ := turnNode_inner h
    refine ⟨s', _, ?_, hrep, hsize, ?_, ?_, by simp⟩
    · simp only [Bool.false_eq_true, if_false, hturn, Option.bind_some]
      exact fixInsertLoop_stop hrep.down rfl
    · cases e <;> simp [entries_branch, Side.other]
    · simp [*]

end

/-- The loop ends with a tree that is in order but for the color of its root. -/
theorem fixInsertLoop_spec (fuel : Nat) : ∀ {s : RbTree K} {d a k x y path n},
    path.length < fuel → Rep s path (branch d .red a k x y) → x.isRed = false →
    y.isRed = false → x.Balanced n → y.Balanced n → Fits path n →
    ∃ s' t, s.fixInsertLoop fuel a = some s' ∧ Rep s' [] t ∧ s'.size = s.size ∧
      t.entries = (plug path (branch d .red a k x y)).entries ∧ ∃ m, t.blacken.Balanced m := by
  induction fuel with
  | zero =>
    intro s d a k x y path n hlt
    exact absurd hlt (Nat.not_lt_zero _)
  | succ fuel ih =>
    intro s d a k x y path n hlt h hx hy hbx hby hfits
    cases path with
    | nil =>
      refine ⟨s, _, ?_, h, rfl, rfl, n + 1, ?_⟩
      · simp only [fixInsertLoop, h.cell, cell_parent, parent_nil]
      · rw [blacken_branch, balanced_black]
        exact ⟨hbx, hby⟩
    | cons p path =>
      cases hcolor : p.color with
      | black =>
        have hwhole := (balanced_plug (p :: path) (branch d .red a k x y)).mpr
          ⟨n, hfits, balanced_red.mpr ⟨hx, hy, hbx, hby⟩, by simp [hcolor]⟩
        refine ⟨s, _, fixInsertLoop_stop h hcolor, rep_plug.mp h, rfl, rfl, ?_⟩
        rw [blacken_of_black hwhole.2]
        exact hwhole.1
      | red =>
        obtain ⟨side, color, b, k', z⟩ := p
        dsimp only at hcolor
        subst hcolor
        obtain ⟨hbz, hz, hpath, hfits⟩ := hfits
        cases path with
        | nil => simp at hpath
        | cons g path =>
          obtain ⟨e, color, g, kg, u⟩ := g
          have hcolor : color = .black := by
            cases color with
            | red => simp at hpath
            | black => rfl
          subst hcolor
          obtain ⟨hbu, hfits⟩ := hfits
          dsimp only at hbz hz hbu hfits
          cases hu : u.isRed with
          | true =>
            obtain ⟨w, kw, u₁, u₂, rfl, -, -, hbu₁, hbu₂⟩ := exists_red e hu hbu
            obtain ⟨s', t, hloop, hrep, hsize, hentries, hm⟩ :=
              ih (by simp at hlt ⊢; omega) h.climb.climb.recolor (by simp) (by simp)
                (balanced_black.mpr ⟨balanced_red.mpr ⟨hx, hy, hbx, hby⟩, hbz⟩)
                (balanced_black.mpr ⟨hbu₁, hbu₂⟩) hfits
            refine ⟨s', t, ?_, hrep, ?_, ?_, hm⟩
            · rw [fixInsertLoop_red h, hu, if_pos rfl, root_branch]
              exact hloop
            · rw [hsize]
              simp [RbTree.setColor]
            · rw [hentries]
              exact entries_plug_congr (entries_branch_congr _ _ _ _
                (entries_recolor _ _ _ _ _ _ _) (entries_recolor _ _ _ _ _ _ _))
          | false =>
            obtain ⟨fuel, rfl⟩ : ∃ m, fuel = m + 1 := ⟨fuel - 1, by simp at hlt; omega⟩
            obtain ⟨s', t, hloop, hrep, hsize, hentries, hbt, ht⟩ :=
              fixInsertLoop_turn h hu hx hy hz hbx hby hbz hbu
            have hwhole := (balanced_plug path t).mpr ⟨n + 1, hfits, hbt, fun _ => ht⟩
            refine ⟨s', plug path t, hloop, rep_plug.mp hrep, hsize,
              entries_plug_congr hentries, ?_⟩
            rw [blacken_of_black hwhole.2]
            exact hwhole.1

/-! ### Search -/

section

variable [LinearOrder K] {t : Tree Offset K} {p : OffsetPtr} {key : K}

theorem ordered_node {l r : Tree Offset K} :
    ((RedBlack.Tree.node c l a k r).entries.map Prod.fst).Pairwise (· < ·) ↔
      (l.entries.map Prod.fst).Pairwise (· < ·) ∧ (r.entries.map Prod.fst).Pairwise (· < ·) ∧
        (∀ e ∈ l.entries, e.1 < k) ∧ (∀ e ∈ r.entries, k < e.1) ∧
        ∀ e ∈ l.entries, ∀ e' ∈ r.entries, e.1 < e'.1 := by
  simp only [Tree.entries, List.map_append, List.map_cons, List.pairwise_append,
    List.pairwise_cons, List.mem_cons, List.mem_map, forall_eq_or_imp, forall_exists_index, and_imp,
    forall_apply_eq_imp_iff₂]
  constructor
  · rintro ⟨hl, ⟨hkr, hr⟩, hlr⟩
    exact ⟨hl, hr, fun e he => (hlr e he).1, hkr, fun e he => (hlr e he).2⟩
  · rintro ⟨hl, hr, hlk, hkr, hlr⟩
    exact ⟨hl, ⟨hkr, hr⟩, fun e he => ⟨hlk e he, hlr e he⟩⟩

/-- The search finds the node with the key, if there is one. -/
theorem findLoop_spec (key : K) (h : Holds s.mem p t)
    (hordered : (t.entries.map Prod.fst).Pairwise (· < ·)) {fuel : Nat} (hfuel : t.entries.length < fuel) :
    (s.findLoop key fuel t.root = some none ∧ ∀ e ∈ t.entries, e.1 ≠ key) ∨
      ∃ path c a l r, s.findLoop key fuel t.root = some (some a) ∧
        t = plug path (branch .left c a key l r) := by
  induction t generalizing p fuel with
  | nil =>
    obtain ⟨fuel, rfl⟩ : ∃ m, fuel = m + 1 := ⟨fuel - 1, by omega⟩
    exact Or.inl ⟨rfl, by simp [Tree.entries]⟩
  | node c l a k r ihl ihr =>
    obtain ⟨fuel, rfl⟩ : ∃ m, fuel = m + 1 := ⟨fuel - 1, by omega⟩
    obtain ⟨hcell, hl, hr⟩ := h
    obtain ⟨hol, hor, hlk, hkr, -⟩ := ordered_node.mp hordered
    simp only [Tree.entries, List.length_append, List.length_cons] at hfuel
    simp only [root_node, findLoop, hcell]
    rcases lt_trichotomy key k with hlt | heq | hgt
    · rw [if_pos hlt]
      rcases ihl hl hol (show _ < fuel by omega) with ⟨hfind, hnone⟩ | ⟨path, c', a', l', r', hfind, ht⟩
      · refine Or.inl ⟨hfind, ?_⟩
        intro e he
        simp only [Tree.entries, List.mem_append, List.mem_cons] at he
        rcases he with he | rfl | he
        · exact hnone e he
        · exact hlt.ne'
        · exact (hlt.trans (hkr e he)).ne'
      · refine Or.inr ⟨path ++ [⟨.left, c, a, k, r⟩], c', a', l', r', hfind, ?_⟩
        rw [plug_append, ← ht]
        rfl
    · subst heq
      rw [if_neg (lt_irrefl _), if_neg (lt_irrefl _)]
      exact Or.inr ⟨[], c, a, l, r, rfl, rfl⟩
    · rw [if_neg hgt.not_gt, if_pos hgt]
      rcases ihr hr hor (show _ < fuel by omega) with ⟨hfind, hnone⟩ | ⟨path, c', a', l', r', hfind, ht⟩
      · refine Or.inl ⟨hfind, ?_⟩
        intro e he
        simp only [Tree.entries, List.mem_append, List.mem_cons] at he
        rcases he with he | rfl | he
        · exact ((hlk e he).trans hgt).ne
        · exact hgt.ne
        · exact hnone e he
      · refine Or.inr ⟨path ++ [⟨.right, c, a, k, l⟩], c', a', l', r', hfind, ?_⟩
        rw [plug_append, ← ht]
        rfl

/-- The place where a key belongs. -/
structure Place.Right (key : K) (path : Path Offset K) : Prop where
  before : ∀ e ∈ before path, e.1 < key
  after : ∀ e ∈ after path, key < e.1

/-- The search for a place ends at the key or where the key belongs. -/
theorem placeLoop_spec (h : Holds s.mem path.parent t)
    (hordered : (t.entries.map Prod.fst).Pairwise (· < ·)) (hright : Place.Right key path)
    {fuel : Nat} (hfuel : t.entries.length < fuel) :
    (s.placeLoop key fuel t.root path.parent = some .duplicate ∧ ∃ e ∈ t.entries, e.1 = key) ∨
      ∃ path', s.placeLoop key fuel t.root path.parent = some (.below path'.parent) ∧
        plug path t = plug path' .nil ∧ Place.Right key path' := by
  induction t generalizing path fuel with
  | nil =>
    obtain ⟨fuel, rfl⟩ : ∃ m, fuel = m + 1 := ⟨fuel - 1, by omega⟩
    exact Or.inr ⟨path, rfl, rfl, hright⟩
  | node c l a k r ihl ihr =>
    obtain ⟨fuel, rfl⟩ : ∃ m, fuel = m + 1 := ⟨fuel - 1, by omega⟩
    obtain ⟨hcell, hl, hr⟩ := h
    obtain ⟨hol, hor, hlk, hkr, -⟩ := ordered_node.mp hordered
    simp only [Tree.entries, List.length_append, List.length_cons] at hfuel
    simp only [root_node, placeLoop, hcell]
    rcases lt_trichotomy key k with hlt | heq | hgt
    · rw [if_pos hlt]
      have hnext : Place.Right key ((⟨.left, c, a, k, r⟩ : Step Offset K) :: path) := by
        refine ⟨hright.before, ?_⟩
        intro e he
        simp only [Path.after, List.mem_cons, List.mem_append] at he
        rcases he with rfl | he | he
        · exact hlt
        · exact hlt.trans (hkr e he)
        · exact hright.after e he
      rcases @ihl (⟨.left, c, a, k, r⟩ :: path) hl hol hnext fuel (by omega) with
        ⟨hplace, e, he, hkey⟩ | hbelow
      · exact Or.inl ⟨hplace, e, by simp [Tree.entries, he], hkey⟩
      · exact Or.inr hbelow
    · subst heq
      rw [if_neg (lt_irrefl _), if_neg (lt_irrefl _)]
      exact Or.inl ⟨rfl, (key, a), by simp [Tree.entries], rfl⟩
    · rw [if_neg hgt.not_gt, if_pos hgt]
      have hnext : Place.Right key ((⟨.right, c, a, k, l⟩ : Step Offset K) :: path) := by
        refine ⟨?_, hright.after⟩
        intro e he
        simp only [Path.before, List.mem_append, List.mem_singleton] at he
        rcases he with he | he | rfl
        · exact hright.before e he
        · exact (hlk e he).trans hgt
        · exact hgt
      rcases @ihr (⟨.right, c, a, k, l⟩ :: path) hr hor hnext fuel (by omega) with
        ⟨hplace, e, he, hkey⟩ | hbelow
      · exact Or.inl ⟨hplace, e, by simp [Tree.entries, he], hkey⟩
      · exact Or.inr hbelow

/-! ### Emplace -/

section

variable {s₁ : RbTree K} {fuel : Nat} {root : Offset} {key : K}
  (hs₁ : s₁ = s.modify a fun n =>
    { n with color := .red, left := none, right := none, parent := none })
include hs₁

theorem emplace_of_empty (hroot : s₁.root = none) :
    s.emplace fuel a = some { ({ s₁ with root := some a } : RbTree K).setColor a .black with
      size := s₁.size + 1 } := by
  rw [emplace, ← hs₁, hroot]
  rfl

theorem emplace_of_duplicate (hroot : s₁.root = some root) (hkey : (s₁.mem a).key = key)
    (hplace : s₁.placeLoop key fuel (some root) none = some .duplicate) :
    s.emplace fuel a = some s₁ := by
  rw [emplace, ← hs₁, hroot]
  simp only [hkey, hplace, Option.bind_eq_bind, Option.bind_some]

theorem emplace_of_below {parent : Offset} (hroot : s₁.root = some root)
    (hkey : (s₁.mem a).key = key)
    (hplace : s₁.placeLoop key fuel (some root) none = some (.below (some parent))) :
    s.emplace fuel a = ({ (if key < (s₁.mem parent).key then
        (s₁.setParent a (some parent)).setChild .left parent (some a)
      else (s₁.setParent a (some parent)).setChild .right parent (some a)) with
      size := s₁.size + 1 } : RbTree K).fixInsert fuel a := by
  rw [emplace, ← hs₁, hroot]
  simp only [hkey, hplace, Option.bind_eq_bind, Option.bind_some, setParent_key]
  split <;> rfl

end

/-- What `emplace` does to the entries. -/
theorem emplace_spec (h : Valid s t) (ha : a ∉ t.addrs) {fuel : Nat}
    (hfuel : t.entries.length + 1 < fuel) :
    ∃ s' t', s.emplace fuel a = some s' ∧ Valid s' t' ∧
      (((∃ e ∈ t.entries, e.1 = (s.mem a).key) ∧ t'.entries = t.entries) ∨
        ((∀ e ∈ t.entries, e.1 ≠ (s.mem a).key) ∧
          ∃ l r, t.entries = l ++ r ∧ t'.entries = l ++ ((s.mem a).key, a) :: r)) := by
  obtain ⟨s₁, hs₁⟩ : ∃ s₁, s₁ = s.modify a fun n =>
    { n with color := .red, left := none, right := none, parent := none } := ⟨_, rfl⟩
  obtain ⟨key, hkey⟩ : ∃ key, key = (s.mem a).key := ⟨_, rfl⟩
  have hcell : s₁.mem a = ⟨key, .red, none, none, none⟩ := by
    rw [hs₁, modify_mem_self, hkey]
  have hrep : Rep s₁ [] t := by
    rw [hs₁]
    exact ⟨h.rep.above, holds_modify ha h.rep.held, h.rep.apart⟩
  have hsize : s₁.size = t.entries.length := by
    rw [hs₁, modify_size]
    exact h.size
  have hkey₁ : (s₁.mem a).key = key := by rw [hcell]
  rw [← hkey]
  by_cases hnil : t = .nil
  · subst hnil
    refine ⟨_, branch .left .black a key .nil .nil, emplace_of_empty hs₁ hrep.root_of_nil,
      ⟨⟨rfl, ⟨?_, trivial, trivial⟩, ?_⟩, ?_, ⟨1, by simp⟩, by simp, ?_⟩, ?_⟩
    · exact @setColor_cell K _ .left .red .black a key none none none hcell
    · simp [Tree.addrs, Tree.entries, branch, Path.addrs, Path.before, Path.after]
    · simp [Tree.entries, branch]
    · simp [Tree.entries, branch, hsize]
    · exact Or.inr ⟨by simp [Tree.entries], [], [], rfl, rfl⟩
  · obtain ⟨root, hroot⟩ := Option.ne_none_iff_exists'.mp fun h => hnil (root_eq_none.mp h)
    have hright : Place.Right key ([] : Path Offset K) :=
      ⟨by simp [Path.before], by simp [Path.after]⟩
    have hplace := placeLoop_spec hrep.held h.ordered hright (show _ < fuel by omega)
    have hroot₁ := hrep.root_of_nil
    rw [hroot] at hroot₁
    rw [parent_nil, hroot] at hplace
    rcases hplace with ⟨hplace, hdup⟩ | ⟨path, hplace, hplug, hright⟩
    · refine ⟨s₁, t, emplace_of_duplicate hs₁ hroot₁ hkey₁ hplace, ?_, Or.inl ⟨hdup, rfl⟩⟩
      exact ⟨hrep, h.ordered, h.balanced, h.black, hsize⟩
    · rw [plug_nil] at hplug
      cases path with
      | nil => exact absurd hplug hnil
      | cons f path =>
        have hhole : Rep s₁ (f :: path) .nil := by
          rw [rep_plug, ← hplug]
          exact hrep
        have haddrs : a ∉ addrs (f :: path) := by
          intro hmem
          refine ha ?_
          rw [hplug, Tree.addrs, entries_plug]
          simpa [Tree.entries, Path.addrs] using hmem
        have hside : (if key < (s₁.mem f.addr).key then
            (s₁.setParent a (some f.addr)).setChild .left f.addr (some a)
            else (s₁.setParent a (some f.addr)).setChild .right f.addr (some a)) =
            (s₁.setParent a (some f.addr)).setChild f.side f.addr (some a) := by
          rw [hhole.up, cell_key]
          cases hf : f.side with
          | left => rw [if_pos (hright.after (f.key, f.addr) (by simp [Path.after, hf]))]
          | right =>
            rw [if_neg (hright.before (f.key, f.addr) (by simp [Path.before, hf])).not_gt]
        have hattach := hhole.attach haddrs hcell
        obtain ⟨n, hfits, hn, -⟩ := (balanced_plug (f :: path) .nil).mp
          ⟨by rw [← hplug]; exact h.balanced, by rw [← hplug]; exact h.black⟩
        rw [balanced_nil] at hn
        subst hn
        have hentries : t.entries = before (f :: path) ++ after (f :: path) := by
          rw [hplug, entries_plug]
          simp [Tree.entries]
        have hlength := length_le_entries (f :: path)
        have hfuel' : (f :: path).length < fuel := by
          rw [hentries, List.length_append] at hfuel
          omega
        obtain ⟨s', t', hloop, hrep', hsize', hentries', hm⟩ :=
          fixInsertLoop_spec fuel hfuel' (hattach.resize (s₁.size + 1)) rfl rfl rfl rfl hfits
        have hnew : t'.entries = before (f :: path) ++ (key, a) :: after (f :: path) := by
          rw [hentries', entries_plug]
          simp [Tree.entries, branch]
        refine ⟨s'.blacken s'.root, t'.blacken, ?_, ⟨?_, ?_, hm, by simp, ?_⟩, Or.inr ⟨?_, ?_⟩⟩
        · rw [emplace_of_below hs₁ hroot₁ hkey₁ hplace, hside, fixInsert, hloop, Option.map_some]
        · rw [hrep'.root_of_nil]
          exact hrep'.blacken
        · rw [entries_blacken, hnew]
          have hordered := h.ordered
          rw [hentries] at hordered
          simp only [List.map_append, List.map_cons, List.pairwise_append, List.pairwise_cons,
            List.mem_cons, List.mem_map, forall_eq_or_imp, forall_exists_index, and_imp,
            forall_apply_eq_imp_iff₂] at hordered ⊢
          exact ⟨hordered.1, ⟨hright.after, hordered.2.1⟩,
            fun e he => ⟨hright.before e he, hordered.2.2 e he⟩⟩
        · rw [blacken_size, hsize', hsize, entries_blacken, hnew, hentries]
          simp
          omega
        · intro e he
          rw [hentries, List.mem_append] at he
          rcases he with he | he
          · exact (hright.before e he).ne
          · exact (hright.after e he).ne'
        · exact ⟨_, _, hentries, by rw [entries_blacken, hnew]⟩

end

/-! ### Deletion -/

section

variable {e : Offset} {ke : K} {t : Tree Offset K} {fuel : Nat}

/-- The red sibling goes up. -/
theorem Rep.turnSibling (h : Rep s path (branch d .black a k x (branch d .red b k' y z))) :
    ∃ s', s.turnSibling d a b = some s' ∧
      Rep s' path (branch d .black b k' (branch d .red a k x y) z) ∧ s'.size = s.size :=
  ((h.downFar.setColor .black).climbFar.setColor .red).rotate

/-- The far nephew is red: one rotation. -/
theorem turnNephew_far {w : Offset} {kw : K} {z₁ z₂ : Tree Offset K}
    (h : Rep s path (branch d c a k x (branch d .black b k' y (branch d .red w kw z₁ z₂)))) :
    ∃ s', s.turnNephew d a b false = some s' ∧
      Rep s' path (branch d c b k' (branch d .black a k x y) (branch d .black w kw z₁ z₂)) ∧
      s'.size = s.size := by
  have h₁ := (h.downFar.setColor c).climbFar.setColor .black
  have h₂ := (h₁.downFar.downFar.setColor .black).climbFar.climbFar
  obtain ⟨s', hrotate, hrep, hsize⟩ := h₂.rotate
  refine ⟨s', ?_, hrep, hsize⟩
  simp only [RbTree.turnNephew, Bool.false_eq_true, if_false, Option.bind_eq_bind, Option.bind_some,
    h.cell, cell_color, h₁.downFar.cell, cell_child_other, root_branch]
  exact hrotate

/-- The near nephew is red and the far one is not: two rotations. -/
theorem turnNephew_near {x₁ x₂ : Tree Offset K}
    (h : Rep s path (branch d c a k t (branch d .black b k' (branch d .red e ke x₁ x₂) y))) :
    ∃ s', s.turnNephew d a b true = some s' ∧
      Rep s' path (branch d c e ke (branch d .black a k t x₁) (branch d .black b k' x₂ y)) ∧
      s'.size = s.size := by
  have h₁ := (h.downFar.down.setColor .black).climb.setColor .red
  rw [← branch_other, ← @branch_other _ _ d .black e] at h₁
  obtain ⟨s₁, hfirst, hrep₁, hsize₁⟩ := h₁.rotate
  rw [branch_other, branch_other] at hrep₁
  have h₂ := (hrep₁.setColor c).climbFar.setColor .black
  have h₃ := (h₂.downFar.downFar.setColor .black).climbFar.climbFar
  obtain ⟨s', hrotate, hrep, hsize⟩ := h₃.rotate
  refine ⟨s', ?_, hrep, hsize.trans hsize₁⟩
  simp only [RbTree.turnNephew, if_true, Option.bind_eq_bind, h.downFar.cell, cell_child,
    root_branch, RbTree.blacken, hfirst, Option.bind_some, hrep₁.climbFar.cell, cell_child_other,
    cell_color, h₂.downFar.cell]
  exact hrotate

/-- A red nephew gives the black node that is missing. -/
theorem turnNephew_spec (h : Rep s path (branch d c a k t (branch d .black b k' x y)))
    (hred : (!x.isRed && !y.isRed) = false) (hbt : t.Balanced n) (hbx : x.Balanced n)
    (hby : y.Balanced n) :
    ∃ s' e ke l r, s.turnNephew d a b (!y.isRed) = some s' ∧ Rep s' path (branch d c e ke l r) ∧
      s'.size = s.size ∧ (branch d c e ke l r).entries =
        (branch d c a k t (branch d .black b k' x y)).entries ∧
      l.isRed = false ∧ r.isRed = false ∧ l.Balanced (n + 1) ∧ r.Balanced (n + 1) := by
  cases hy : y.isRed with
  | true =>
    obtain ⟨w, kw, z₁, z₂, rfl, -, -, hb₁, hb₂⟩ := exists_red d hy hby
    obtain ⟨s', hturn, hrep, hsize⟩ := turnNephew_far h
    refine ⟨s', _, _, _, _, hturn, hrep, hsize, ?_, by simp, by simp, by simp [*], by simp [*]⟩
    cases d <;> simp [entries_branch]
  | false =>
    have hx : x.isRed = true := by
      cases hx : x.isRed with
      | true => rfl
      | false => simp [hx, hy] at hred
    obtain ⟨w, kw, x₁, x₂, rfl, -, -, hb₁, hb₂⟩ := exists_red d hx hbx
    obtain ⟨s', hturn, hrep, hsize⟩ := turnNephew_near h
    refine ⟨s', _, _, _, _, hturn, hrep, hsize, ?_, by simp, by simp, by simp [*], by simp [*]⟩
    cases d <;> simp [entries_branch]

/-- A pass of the loop when the sibling is black. -/
theorem fixDeleteFromParent_black
    (h : Rep s path (branch d c a k t (branch d .black b k' x y))) :
    s.fixDeleteFromParent (fuel + 1) a d =
      if !x.isRed && !y.isRed then
        if c = .red then some ((s.setColor b .red).setColor a .black)
        else if some a = s.root then some (s.setColor b .red)
        else
          match path.parent with
          | none => some (s.setColor b .red)
          | some g => (s.setColor b .red).fixDeleteFromParent fuel g
              ((s.setColor b .red).sideOf g a)
      else s.turnNephew d a b (!y.isRed) := by
  have hcell := h.downFar.cell
  have h₁ := (h.downFar.setColor .red).climbFar
  have hx : s.isBlack x.root = !x.isRed := isBlack_of_holds h.downFar.down.held
  have hy : s.isBlack y.root = !y.isRed := isBlack_of_holds h.downFar.downFar.held
  rw [fixDeleteFromParent, h.cell, cell_child_other, root_branch]
  simp only [hcell, cell_color, reduceCtorEq, if_false, Option.bind_eq_bind, Option.bind_some,
    cell_child, cell_child_other, hx, hy, h₁.cell, cell_parent]
  rfl

/-- A red sibling is turned, and then the pass goes on as if it had started there. -/
theorem fixDeleteFromParent_red {s' : RbTree K} {x₁ x₂ : Tree Offset K}
    (h : Rep s path (branch d .black a k t (branch d .red b k' x y)))
    (h' : Rep s' path (branch d .black b k' (branch d .red a k t (branch d .black e ke x₁ x₂)) y))
    (hturn : s.turnSibling d a b = some s') :
    s.fixDeleteFromParent (fuel + 1) a d = s'.fixDeleteFromParent (fuel + 1) a d := by
  rw [fixDeleteFromParent_black h'.down, fixDeleteFromParent, h.cell, cell_child_other, root_branch]
  have hcell := h'.down.downFar.cell
  have h₁ := (h'.down.downFar.setColor .red).climbFar
  have hx : s'.isBlack x₁.root = !x₁.isRed := isBlack_of_holds h'.down.downFar.down.held
  have hy : s'.isBlack x₂.root = !x₂.isRed := isBlack_of_holds h'.down.downFar.downFar.held
  simp only [h.downFar.cell, cell_color, if_true, hturn, Option.bind_eq_bind, Option.bind_some,
    h'.down.cell, cell_child_other, root_branch, hcell, cell_child, hx, hy, h₁.cell]

/-- A fix-up returns with a tree that is in order and has the same entries. -/
def Ends (result : Option (RbTree K)) (size : Nat) (entries : List (K × Offset)) : Prop :=
  ∃ s t, result = some s ∧ Rep s [] t ∧ s.size = size ∧ t.entries = entries ∧
    (∃ m, t.Balanced m) ∧ t.isRed = false

theorem ends_of_plug {entries : List (K × Offset)} (h : Rep s path t) (hfits : Fits path n)
    (hbalanced : t.Balanced n) (hred : red path = true → t.isRed = false)
    (hentries : (plug path t).entries = entries) : Ends (some s) s.size entries := by
  obtain ⟨hm, hblack⟩ := (balanced_plug path t).mpr ⟨n, hfits, hbalanced, hred⟩
  exact ⟨s, plug path t, rfl, rep_plug.mp h, rfl, hentries, hm, hblack⟩

/-- A red nephew ends the loop. -/
theorem ends_turnNephew (h : Rep s path (branch d c a k t (branch d .black b k' x y)))
    (hred : (!x.isRed && !y.isRed) = false) (hbt : t.Balanced n) (hbx : x.Balanced n)
    (hby : y.Balanced n) (hfits : Fits (⟨d, c, a, k, branch d .black b k' x y⟩ :: path) (n + 1)) :
    Ends (s.turnNephew d a b (!y.isRed)) s.size
      (plug path (branch d c a k t (branch d .black b k' x y))).entries := by
  obtain ⟨s', e, ke, l, r, hturn, hrep, hsize, hentries, hl, hr, hbl, hbr⟩ :=
    turnNephew_spec h hred hbt hbx hby
  rw [hturn, ← hsize]
  obtain ⟨-, hfits⟩ := hfits
  cases c with
  | red =>
    obtain ⟨-, hpath, hfits⟩ := hfits
    exact ends_of_plug hrep hfits (balanced_red.mpr ⟨hl, hr, hbl, hbr⟩) (by simp [hpath])
      (entries_plug_congr hentries)
  | black =>
    exact ends_of_plug hrep hfits (balanced_black.mpr ⟨hbl, hbr⟩) (by simp)
      (entries_plug_congr hentries)

/-- A red parent gives the black node that is missing. -/
theorem ends_redParent (fuel : Nat)
    (h : Rep s path (branch d .red a k t (branch d .black b k' x y)))
    (hbt : t.Balanced n) (hbx : x.Balanced n) (hby : y.Balanced n) (hpath : red path = false)
    (hfits : Fits path (n + 1)) :
    Ends (s.fixDeleteFromParent (fuel + 1) a d) s.size
      (plug path (branch d .red a k t (branch d .black b k' x y))).entries := by
  rw [fixDeleteFromParent_black h]
  cases hred : (!x.isRed && !y.isRed) with
  | true =>
    rw [Bool.and_eq_true, Bool.not_eq_true', Bool.not_eq_true'] at hred
    have h₁ := (h.downFar.setColor .red).climbFar.setColor .black
    refine ends_of_plug h₁ hfits (balanced_black.mpr ⟨?_, ?_⟩) (by simp) ?_
    · exact hbt
    · exact balanced_red.mpr ⟨hred.1, hred.2, hbx, hby⟩
    · exact entries_plug_congr (entries_branch_congr _ _ _ _ rfl (entries_recolor _ _ _ _ _ _ _))
  | false =>
    refine ends_turnNephew h hred hbt hbx hby ⟨?_, by simp, hpath, hfits⟩
    exact balanced_black.mpr ⟨hbx, hby⟩

/-- The loop ends with a tree that is in order. -/
theorem fixDeleteFromParent_spec (fuel : Nat) : ∀ {s : RbTree K} {d c a k z t path n},
    path.length < fuel → Rep s (⟨d, c, a, k, z⟩ :: path) t → t.isRed = false → t.Balanced n →
    Fits (⟨d, c, a, k, z⟩ :: path) (n + 1) →
    Ends (s.fixDeleteFromParent fuel a d) s.size (plug (⟨d, c, a, k, z⟩ :: path) t).entries := by
  induction fuel with
  | zero =>
    intro s d c a k z t path n hlt
    exact absurd hlt (Nat.not_lt_zero _)
  | succ fuel ih =>
    intro s d c a k z t path n hlt h ht hbt hfits
    have hbz : z.Balanced (n + 1) := hfits.1
    cases hz : z.isRed with
    | true =>
      obtain ⟨b, k', x, y, rfl, hx, hy, hbx, hby⟩ := exists_red d hz hbz
      obtain ⟨e, ke, x₁, x₂, rfl, hb₁, hb₂⟩ := exists_black d hx hbx
      have hcolor : c = .black := by
        cases c with
        | red => simp [Fits] at hfits
        | black => rfl
      subst hcolor
      obtain ⟨s', hturn, hrep, hsize⟩ := h.climb.turnSibling
      rw [fixDeleteFromParent_red h.climb hrep hturn, ← hsize]
      have hends := ends_redParent fuel hrep.down hbt hb₁ hb₂ (by simp)
        ⟨hby, hfits.2⟩
      have hentries : (plug (⟨d, .black, a, k, branch d .red b k' (branch d .black e ke x₁ x₂) y⟩
            :: path) t).entries =
          (plug (⟨d, .black, b, k', y⟩ :: path)
            (branch d .red a k t (branch d .black e ke x₁ x₂))).entries :=
        entries_plug_congr (entries_rotate d .red .black .black .red a b k k' _ _ _).symm
      rw [hentries]
      exact hends
    | false =>
      obtain ⟨b, k', x, y, rfl, hbx, hby⟩ := exists_black d hz hbz
      cases c with
      | red => exact ends_redParent _ h.climb hbt hbx hby hfits.2.2.1 hfits.2.2.2
      | black =>
        cases hred : (!x.isRed && !y.isRed) with
        | false =>
          rw [fixDeleteFromParent_black h.climb, hred]
          exact ends_turnNephew h.climb hred hbt hbx hby hfits
        | true =>
          rw [fixDeleteFromParent_black h.climb, hred]
          rw [Bool.and_eq_true, Bool.not_eq_true', Bool.not_eq_true'] at hred
          have h₁ := (h.climb.downFar.setColor .red).climbFar
          have hb₁ : (branch d .black a k t (branch d .red b k' x y)).Balanced (n + 1) :=
            balanced_black.mpr ⟨hbt, balanced_red.mpr ⟨hred.1, hred.2, hbx, hby⟩⟩
          have hentries : ∀ path : Path Offset K,
              (plug path (branch d .black a k t (branch d .red b k' x y))).entries =
                (plug (⟨d, .black, a, k, branch d .black b k' x y⟩ :: path) t).entries :=
            fun path => entries_plug_congr (entries_branch_congr _ _ _ _ rfl
              (entries_recolor _ _ _ _ _ _ _))
          cases path with
          | nil =>
            have hroot : s.root = some a := by
              rw [h.climb.root_of_nil, root_branch]
            simp only [if_true, reduceCtorEq, if_false, hroot]
            exact ends_of_plug h₁ trivial hb₁ (by simp) (hentries _)
          | cons g path =>
            have hroot : ¬some a = s.root := Ne.symm (h.climb.ne_root root_branch)
            simp only [if_true, reduceCtorEq, if_false, hroot, parent_cons,
              h₁.sideOf root_branch]
            rw [← hentries]
            obtain ⟨e, ce, g, kg, u⟩ := g
            exact ih (by simp at hlt; omega) h₁ (by simp) hb₁ hfits.2

end

/-! ### Pop -/

/-- The leftmost node of a subtree. -/
theorem minimum_spec {t : Tree Offset K} {p : OffsetPtr} (h : Holds s.mem p t) (hne : t ≠ .nil)
    {fuel : Nat} (hfuel : t.entries.length < fuel) :
    ∃ ups c b k r, s.minimum fuel t.root = some (some b) ∧ t = plug ups (branch .left c b k .nil r) ∧
      ∀ f ∈ ups, f.side = .left := by
  induction t generalizing p fuel with
  | nil => exact absurd rfl hne
  | node c l a k r ihl =>
    obtain ⟨fuel, rfl⟩ : ∃ m, fuel = m + 1 := ⟨fuel - 1, by omega⟩
    obtain ⟨hcell, hl, -⟩ := h
    simp only [Tree.entries, List.length_append, List.length_cons] at hfuel
    simp only [root_node, minimum, hcell]
    by_cases hnil : l = .nil
    · subst hnil
      exact ⟨[], c, a, k, r, rfl, rfl, by simp⟩
    · obtain ⟨ups, c', b, k', r', hmin, hplug, hleft⟩ := ihl hl hnil (show _ < fuel by omega)
      obtain ⟨left, hleft'⟩ := Option.ne_none_iff_exists'.mp fun h => hnil (root_eq_none.mp h)
      refine ⟨ups ++ [⟨.left, c, a, k, r⟩], c', b, k', r', ?_, ?_, ?_⟩
      · rw [hleft'] at hmin ⊢
        exact hmin
      · rw [plug_append, ← hplug]
        rfl
      · intro f hf
        rcases List.mem_append.mp hf with hf | hf
        · exact hleft f hf
        · rw [List.mem_singleton.mp hf]

/-- A node was taken out of the tree: what hangs in its place, and the color that is missing
there. -/
structure Unlinked (s s' : RbTree K) (path : Path Offset K) (t : Tree Offset K) (key : K)
    (node : Offset) (removal : Removal) (path' : Path Offset K) (x : Tree Offset K) : Prop where
  rep : Rep s' path' x
  size : s'.size = s.size
  replace : removal.replace = x.root
  deletedParent : removal.deletedParent = path'.parent
  deletedSide : ∀ f p, path' = f :: p → removal.deletedSide = f.side
  entries : ∃ l r, (plug path t).entries = l ++ (key, node) :: r ∧ (plug path' x).entries = l ++ r
  color : (∃ n, (plug path t).Balanced n) → (plug path t).isRed = false →
    ∃ m d a k, Fits path' m ∧ (branch d removal.originalColor a k .nil x).Balanced m

theorem Rep.deletedSide (h : Rep s (f :: path) (branch d c a k x y)) :
    s.deletedSide a = f.side := by
  rw [RbTree.deletedSide, h.cell, cell_parent, parent_cons]
  exact h.sideOf root_branch

/-- A node with at most one child. -/
theorem unlinked_one (h : Rep s path (branch d c a k .nil x)) :
    Unlinked s (s.transplant a x.root) path (branch d c a k .nil x) k a
      ⟨c, x.root, path.parent, s.deletedSide a⟩ path x := by
  refine ⟨h.transplant.1, transplant_size _, rfl, rfl, ?_, ?_, ?_⟩
  · rintro f p rfl
    exact h.deletedSide
  · rw [entries_plug, entries_plug]
    cases d with
    | left =>
      exact ⟨before path, x.entries ++ after path, by simp [entries_branch, Tree.entries], by simp⟩
    | right =>
      exact ⟨before path ++ x.entries, after path, by simp [entries_branch, Tree.entries], by simp⟩
  · intro hbalanced hblack
    obtain ⟨n, hfits, hb, -⟩ := (balanced_plug path (branch d c a k .nil x)).mp ⟨hbalanced, hblack⟩
    exact ⟨n, d, a, k, hfits, hb⟩

section

variable {l x : Tree Offset K} {c' : RBColor} {ups : Path Offset K}

/-- The successor has left its place, and holds what hangs in the place of the right child
now. -/
structure Detached (s s' : RbTree K) (path : Path Offset K) (c : RBColor) (a : Offset) (k : K)
    (l : Tree Offset K) (b : Offset) (k' : K) (r : Tree Offset K) : Prop where
  above : Above s' path (some a)
  cell : ∃ p, s'.mem a = ⟨k, c, l.root, p, path.parent⟩
  successor : ∃ c' q parent, s'.mem b = ⟨k', c', q, r.root, parent⟩
  left : Holds s'.mem (some a) l
  right : Holds s'.mem (some b) r
  size : s'.size = s.size

/-- The successor is the right child. -/
theorem detached_child (h : Rep s (⟨.right, c, a, k, l⟩ :: path) (branch .left c' b k' .nil x)) :
    ∃ s', s.leavePlace a b = (some b, s') ∧ Detached s s' path c a k l b k' x := by
  obtain ⟨⟨hcell, hl, habove⟩, hheld, hapart⟩ := h
  obtain ⟨hcell', -, hx⟩ := holds_branch.mp hheld
  obtain ⟨-, hbx, -, hnx, -⟩ := nodup_branch.mp hapart.1
  have haway : ∀ e, (e = a ∨ e ∈ l.addrs ∨ e ∈ path.addrs) → e ∉ x.addrs := fun e he hx' =>
    hapart.2.2 (mem_addrs_branch.mpr (Or.inr (Or.inr hx'))) (mem_addrs_cons.mpr he)
  refine ⟨s.reparent x.root (some b), ?_, ?_, ⟨some b, ?_⟩, ⟨c', none, some a, ?_⟩, ?_, ?_, ?_⟩
  · rw [leavePlace, hcell']
    simp [RbTree.cell]
  · exact above_congr (s := s) (reparent_root _)
      (fun e he => reparent_mem (haway e (Or.inr (Or.inr he)))) habove
  · rw [reparent_mem (haway a (Or.inl rfl)), hcell, root_branch]
    rfl
  · rw [reparent_mem hbx, hcell']
    rfl
  · exact holds_congr (fun e he => reparent_mem (haway e (Or.inr (Or.inl he)))) hl
  · exact holds_reparent hx hnx
  · exact reparent_size _

/-- The successor is further down. -/
theorem detached_below (h : Rep s (f :: ups ++ ⟨.right, c, a, k, l⟩ :: path)
    (branch .left c' b k' .nil x)) :
    ∃ s', s.leavePlace a b = (some f.addr, s') ∧
      Detached s s' path c a k l b k' (plug (f :: ups) x) := by
  have hfa : f.addr ≠ a := by
    obtain ⟨-, hrest, -⟩ := nodup_addrs_cons.mp h.apart.2.1
    rintro rfl
    exact hrest (mem_addrs_append.mpr (Or.inr (mem_addrs_cons.mpr (Or.inl rfl))))
  have hbpath : b ∉ Path.addrs (f :: ups ++ ⟨.right, c, a, k, l⟩ :: path) :=
    h.apart.2.2 (mem_addrs_branch.mpr (Or.inl rfl))
  rw [mem_addrs_append, not_or] at hbpath
  obtain ⟨hbups, hbrest⟩ := hbpath
  rw [mem_addrs_cons, not_or, not_or] at hbrest
  obtain ⟨hba, hbl, hbp⟩ := hbrest
  obtain ⟨-, hbx, -, -, -⟩ := nodup_branch.mp h.apart.1
  obtain ⟨hrep, hmemb⟩ := h.transplant
  obtain ⟨s₁, hs₁⟩ : ∃ s₁, s₁ = s.transplant b x.root := ⟨_, rfl⟩
  obtain ⟨r, hr⟩ : ∃ r, r = plug (f :: ups) x := ⟨_, rfl⟩
  have hbr : b ∉ r.addrs := by
    rw [hr, mem_addrs_plug, not_or]
    exact ⟨hbx, hbups⟩
  rw [← hs₁] at hrep hmemb
  rw [rep_append, ← hr] at hrep
  rw [← hr]
  obtain ⟨⟨hcell, hl, habove⟩, hheld, hnr, -, hdis⟩ := hrep
  dsimp only at hcell hba
  have haway : ∀ e, (e = a ∨ e ∈ l.addrs ∨ e ∈ path.addrs) → e ∉ r.addrs := fun e he hr' =>
    hdis hr' (mem_addrs_cons.mpr he)
  have hleave : s.leavePlace a b =
      (some f.addr, (s₁.setChild .right b r.root).reparent r.root (some b)) := by
    have hcell' := h.cell
    have hparent : (s.mem b).parent = some f.addr := by
      rw [hcell', cell_parent]
      rfl
    have hright : (s.mem b).right = x.root := by
      rw [hcell']
      rfl
    have hnode : (s₁.mem a).right = r.root := by
      rw [hcell]
      rfl
    have hchild : ((s₁.setChild .right b r.root).mem b).right = r.root := by
      rw [RbTree.setChild, modify_mem_self]
      rfl
    simp only [leavePlace, hparent, Option.some.injEq, hfa, if_false, hright, ← hs₁, hnode, hchild]
  refine ⟨_, hleave, ?_, ⟨r.root, ?_⟩, ?_, ?_, ?_, ?_⟩
  · refine above_congr (s := s₁.setChild .right b r.root) (reparent_root _)
      (fun e he => reparent_mem (haway e (Or.inr (Or.inr he)))) ?_
    exact above_modify hbp habove
  · rw [reparent_mem (haway a (Or.inl rfl)), RbTree.setChild, modify_mem_of_ne _ (Ne.symm hba),
      hcell]
    rfl
  · have hcell' := h.cell
    refine ⟨c', none, some f.addr, ?_⟩
    rw [reparent_mem hbr, RbTree.setChild, modify_mem_self, hmemb, hcell']
    rfl
  · refine holds_congr (fun e he => reparent_mem (haway e (Or.inr (Or.inl he)))) ?_
    exact holds_modify hbl hl
  · exact holds_reparent (holds_modify hbr hheld) hnr
  · rw [reparent_size, RbTree.setChild, modify_size, hs₁, transplant_size]

end

/-- A node with two children: the leftmost node of the right subtree takes its place. -/
theorem unlinked_two {l r : Tree Offset K} {fuel : Nat} (h : Rep s path (branch .left c a k l r))
    (hl : l ≠ .nil) (hr : r ≠ .nil) (hfuel : r.entries.length < fuel) :
    ∃ removal s' path' x, s.unlink fuel a = some (removal, s') ∧
      Unlinked s s' path (branch .left c a k l r) k a removal path' x := by
  obtain ⟨ups, c', b, k', x, hmin, hplug, hleft⟩ := minimum_spec h.downFar.held hr hfuel
  have hb : Rep s (ups ++ ⟨.right, c, a, k, l⟩ :: path) (branch .left c' b k' .nil x) := by
    rw [rep_append, ← hplug]
    exact h.downFar
  have hbpath : b ∉ Path.addrs (ups ++ ⟨.right, c, a, k, l⟩ :: path) :=
    hb.apart.2.2 (mem_addrs_branch.mpr (Or.inl rfl))
  rw [mem_addrs_append, mem_addrs_cons, not_or, not_or, not_or] at hbpath
  obtain ⟨hbups, hba, hbl, hbp⟩ := hbpath
  obtain ⟨hal, har, hnl, -, hlr⟩ := nodup_branch.mp h.apart.1
  have hap : a ∉ path.addrs := h.apart.2.2 (mem_addrs_branch.mpr (Or.inl rfl))
  -- The successor is gone from the right subtree.
  have hsub : ∀ e ∈ (plug ups x).addrs, e ∈ r.addrs := by
    intro e he
    rw [hplug, mem_addrs_plug, mem_addrs_branch]
    rcases mem_addrs_plug.mp he with he | he
    · exact Or.inl (Or.inr (Or.inr he))
    · exact Or.inr he
  have hnodup : (plug ups x).addrs.Nodup := by
    have hsublist : (plug ups x).addrs.Sublist r.addrs := by
      rw [hplug, Tree.addrs, Tree.addrs, entries_plug, entries_plug]
      refine List.Sublist.map _ (List.Sublist.append_right (List.Sublist.append_left ?_ _) _)
      exact List.sublist_append_right [(k', b)] x.entries
    exact hsublist.nodup (nodup_branch.mp h.apart.1).2.2.2.1
  have hbplug : b ∉ (plug ups x).addrs := by
    rw [mem_addrs_plug, not_or]
    exact ⟨(nodup_branch.mp hb.apart.1).2.1, hbups⟩
  obtain ⟨s₁, hleave, hdetached⟩ : ∃ s₁, s.leavePlace a b =
      (Path.parent (ups ++ ⟨.right, c, b, k', l⟩ :: path), s₁) ∧
        Detached s s₁ path c a k l b k' (plug ups x) := by
    cases ups with
    | nil => exact detached_child hb
    | cons f ups => exact detached_below hb
  obtain ⟨p, hcell⟩ := hdetached.cell
  obtain ⟨c₁, q, near, hcell'⟩ := hdetached.successor
  obtain ⟨hrep, hsize⟩ := rep_takePlace hdetached.above hcell hcell' hdetached.left hdetached.right
    ⟨nodup_branch.mpr ⟨hbl, hbplug, hnl, hnodup, fun e he he' => hlr he (hsub e he')⟩,
      h.apart.2.1, by
        intro e he he'
        rcases mem_addrs_branch.mp he with rfl | he | he
        · exact hbp he'
        · exact h.apart.2.2 (mem_addrs_branch.mpr (Or.inr (Or.inl he))) he'
        · exact h.apart.2.2 (mem_addrs_branch.mpr (Or.inr (Or.inr (hsub e he)))) he'⟩
    (Ne.symm hba) hal hap
  refine ⟨⟨c', x.root, Path.parent (ups ++ ⟨.right, c, b, k', l⟩ :: path), s.deletedSide b⟩,
    s₁.takePlace a b, ups ++ ⟨.right, c, b, k', l⟩ :: path, x, ?_,
    ⟨?_, hsize.trans hdetached.size, rfl, rfl, ?_, ?_, ?_⟩⟩
  · have hleft : (s.mem a).left = l.root := by
      rw [h.cell]
      rfl
    have hright : (s.mem a).right = r.root := by
      rw [h.cell]
      rfl
    have hb' : s.mem b = ⟨k', c', none, x.root, _⟩ := hb.cell
    rw [unlink, hleft, hright, if_neg (fun h => hl (root_eq_none.mp h)),
      if_neg (fun h => hr (root_eq_none.mp h))]
    simp only [hmin, Option.bind_eq_bind, Option.bind_some, hleave, hb']
  · rw [rep_append]
    exact hrep.downFar
  · intro f p hpath
    cases ups with
    | nil =>
      rw [List.nil_append, List.cons.injEq] at hpath
      rw [← hpath.1]
      exact hb.deletedSide
    | cons g ups =>
      rw [List.cons_append, List.cons.injEq] at hpath
      rw [← hpath.1]
      exact hb.deletedSide
  · refine ⟨before path ++ l.entries, (k', b) :: (x.entries ++ after ups ++ after path), ?_, ?_⟩
    · rw [entries_plug, entries_branch, hplug, entries_plug, before_eq_nil hleft]
      simp [entries_branch, Tree.entries]
    · rw [plug_append, plug_cons, entries_plug, entries_branch, entries_plug, before_eq_nil hleft]
      simp
  · intro hbalanced hblack
    have hwhole : plug path (branch .left c a k l r) =
        plug (ups ++ ⟨.right, c, a, k, l⟩ :: path) (branch .left c' b k' .nil x) := by
      rw [plug_append, ← hplug]
      rfl
    rw [hwhole] at hbalanced hblack
    obtain ⟨m, hfits, hbal, -⟩ := (balanced_plug _ _).mp ⟨hbalanced, hblack⟩
    exact ⟨m, .left, b, k', fits_rename hfits, hbal⟩

theorem unlink_spec {l r : Tree Offset K} {fuel : Nat} (h : Rep s path (branch .left c a k l r))
    (hfuel : r.entries.length < fuel) :
    ∃ removal s' path' x, s.unlink fuel a = some (removal, s') ∧
      Unlinked s s' path (branch .left c a k l r) k a removal path' x := by
  have hcell : s.mem a = ⟨k, c, l.root, r.root, path.parent⟩ := h.cell
  by_cases hl : l = .nil
  · subst hl
    refine ⟨_, _, _, _, ?_, unlinked_one h⟩
    simp [unlink, hcell]
  · have hleft : l.root ≠ none := fun hroot => hl (root_eq_none.mp hroot)
    by_cases hr : r = .nil
    · subst hr
      refine ⟨_, _, _, _, ?_, @unlinked_one K s .right c a k l path h⟩
      simp [unlink, hcell, hleft]
    · exact unlinked_two h hl hr hfuel

/-- A replacement that hangs below a missing black node is red, and is made black. -/
theorem fixDelete_red {x : Tree Offset K} {fuel : Nat} (h : Rep s path x) (hred : x.isRed = true) :
    s.fixDelete (fuel + 1) x.root = some (s.blacken x.root) := by
  cases x with
  | nil => simp [Tree.isRed] at hred
  | node c l a k r =>
    have hcolor : (s.mem a).color = .red := by
      rw [h.held.1]
      simpa [Tree.isRed] using hred
    rw [fixDelete, fixDeleteLoop]
    split
    · rfl
    · simp [hcolor]

/-- The second part of `pop` puts the tree in order. -/
theorem ends_rebalance {s' : RbTree K} {t x : Tree Offset K} {removal : Removal}
    {path' : Path Offset K} {fuel : Nat} (size : Nat)
    (h : Unlinked s s' path t k a removal path' x)
    (hbalanced : ∃ n, (plug path t).Balanced n) (hblack : (plug path t).isRed = false)
    (hfuel : path'.length < fuel) (hsize : path' ≠ [] → 0 < size) :
    Ends (({ s' with size := size } : RbTree K).rebalance fuel removal) size
      (plug path' x).entries := by
  obtain ⟨m, d, e, ke, hfits, hb⟩ := h.color hbalanced hblack
  have hrep := h.rep.resize size
  obtain ⟨fuel, rfl⟩ : ∃ m, fuel = m + 1 := ⟨fuel - 1, by omega⟩
  rw [rebalance, h.replace, h.deletedParent]
  cases hcolor : removal.originalColor with
  | red =>
    rw [hcolor, balanced_red] at hb
    exact ends_of_plug hrep hfits hb.2.2.2 (fun _ => hb.2.1) rfl
  | black =>
    rw [hcolor] at hb
    obtain ⟨m, rfl⟩ : ∃ m', m = m' + 1 := by
      cases m with
      | zero => exact absurd hb not_balanced_black_zero
      | succ m => exact ⟨m, rfl⟩
    rw [balanced_black, balanced_nil] at hb
    obtain ⟨rfl, hb⟩ := hb
    simp only [if_true]
    by_cases hnil : x = .nil
    · subst hnil
      cases path' with
      | nil => exact ends_of_plug (n := 0) hrep trivial rfl (fun _ => rfl) rfl
      | cons f path' =>
        have hpos : 0 < size := hsize (by simp)
        simp only [Tree.root, parent_cons, hpos, if_true, h.deletedSide f path' rfl]
        obtain ⟨d', c', b, k', z⟩ := f
        exact fixDeleteFromParent_spec (fuel + 1) (by simp at hfuel ⊢; omega) hrep rfl hb hfits
    · obtain ⟨v, hv⟩ := Option.ne_none_iff_exists'.mp fun hroot => hnil (root_eq_none.mp hroot)
      have hred := red_of_balanced_zero hb hnil
      rw [hv]
      simp only
      rw [← hv, fixDelete_red hrep hred]
      have hends := ends_of_plug hrep.blacken hfits (balanced_blacken hred hb) (fun _ => by simp)
        (entries_plug_congr (entries_blacken x))
      rw [blacken_size] at hends
      exact hends

/-- What `pop` returns and does to the entries. -/
theorem pop_spec [LinearOrder K] {t : Tree Offset K} {fuel : Nat} (h : Valid s t) (key : K)
    (hfuel : t.entries.length < fuel) :
    (s.pop fuel key = some (none, s) ∧ ∀ e ∈ t.entries, e.1 ≠ key) ∨
      ∃ s' t' a l r, s.pop fuel key = some (some a, s') ∧ t.entries = l ++ (key, a) :: r ∧
        t'.entries = l ++ r ∧ Valid s' t' := by
  by_cases hnil : t = .nil
  · subst hnil
    refine Or.inl ⟨?_, by simp [Tree.entries]⟩
    rw [pop, h.rep.root_of_nil]
    rfl
  obtain ⟨root, hroot⟩ := Option.ne_none_iff_exists'.mp fun hroot => hnil (root_eq_none.mp hroot)
  have hsroot : s.root = some root := by rw [h.rep.root_of_nil, hroot]
  rcases findLoop_spec key h.rep.held h.ordered hfuel with ⟨hfind, hnone⟩ |
    ⟨path, c, a, l, r, hfind, hplug⟩
  · refine Or.inl ⟨?_, hnone⟩
    rw [hroot] at hfind
    simp only [pop, hsroot, findNode, hfind, Option.bind_eq_bind, Option.bind_some]
  · right
    have hrep : Rep s path (branch .left c a key l r) := by
      rw [rep_plug, ← hplug]
      exact h.rep
    have hlength : t.entries.length = (before path).length + (l.entries.length +
        (r.entries.length + 1)) + (after path).length := by
      rw [hplug, entries_plug, entries_branch]
      simp only [List.length_append, List.length_cons]
    obtain ⟨removal, s₁, path', x, hunlink, hunlinked⟩ := unlink_spec hrep (show _ < fuel by omega)
    obtain ⟨left, right, hbefore, hafter⟩ := hunlinked.entries
    rw [← hplug] at hbefore
    have hcount : (left ++ right).length + 1 = t.entries.length := by
      rw [hbefore]
      simp
      omega
    have hpath : path'.length ≤ (left ++ right).length := by
      have hle := length_le_entries path'
      rw [← hafter, entries_plug, List.length_append, List.length_append]
      omega
    obtain ⟨s₂, t', hrebalance, hrep₂, hsize₂, hentries₂, hm, hblack⟩ :=
      ends_rebalance (s₁.size - 1) hunlinked (by rw [← hplug]; exact h.balanced)
        (by rw [← hplug]; exact h.black) (show _ < fuel by omega) (by
          intro hne
          have hpos := List.length_pos_iff.mpr hne
          have hsize := h.size
          rw [hunlinked.size]
          omega)
    rw [hafter] at hentries₂
    have haway : a ∉ t'.addrs := by
      have hnodup := h.rep.apart.1
      rw [Tree.addrs, hbefore, List.map_append, List.map_cons, List.nodup_middle] at hnodup
      rw [Tree.addrs, hentries₂, List.map_append]
      exact (List.nodup_cons.mp hnodup).1
    have hrep₃ : Rep (s₂.blacken s₂.root) [] t' := by
      have hblackened := hrep₂.blacken
      rw [blacken_of_black hblack, ← hrep₂.root_of_nil] at hblackened
      exact hblackened
    refine ⟨(s₂.blacken s₂.root).modify a fun n =>
        { n with left := none, right := none, parent := none },
      t', a, left, right, ?_, hbefore, hentries₂, ⟨?_, ?_, hm, hblack, ?_⟩⟩
    · rw [hroot] at hfind
      simp only [pop, hsroot, findNode, hfind, Option.bind_eq_bind, Option.bind_some, hunlink,
        hrebalance]
    · exact ⟨hrep₃.above, holds_modify haway hrep₃.held, hrep₃.apart⟩
    · have hordered := h.ordered
      rw [hbefore] at hordered
      rw [hentries₂]
      refine List.Pairwise.sublist (List.Sublist.map _ ?_) hordered
      exact List.Sublist.append_left (List.sublist_cons_self _ _) _
    · rw [modify_size, blacken_size, hsize₂, hunlinked.size, h.size, hentries₂]
      omega

/-! ### Runs -/

section

variable [LinearOrder K]

/-- The keys after an operation: inserting a key that is there does nothing, and removing one
that is not. -/
def keysAfter (keys : Finset K) : Op K → Finset K
  | .emplace _ key => insert key keys
  | .pop key => keys.erase key

/-- The node of each key after an operation: the first one that came with the key. -/
def ownersAfter (owner : K → OffsetPtr) : Op K → K → OffsetPtr
  | .emplace off key => if owner key = none then Function.update owner key (some off) else owner
  | .pop key => Function.update owner key none

/-- What an operation returns: `pop` the node of the key. -/
def answer (owner : K → OffsetPtr) : Op K → OffsetPtr
  | .emplace _ _ => none
  | .pop key => owner key

def answers : (K → OffsetPtr) → List (Op K) → List OffsetPtr
  | _, [] => []
  | owner, op :: ops => answer owner op :: answers (ownersAfter owner op) ops

/-- A node that is inserted is not in the tree. -/
def New (owner : K → OffsetPtr) : Op K → Prop
  | .emplace off _ => ∀ key, owner key ≠ some off
  | .pop _ => True

def AllNew : (K → OffsetPtr) → List (Op K) → Prop
  | _, [] => True
  | owner, op :: ops => New owner op ∧ AllNew (ownersAfter owner op) ops

/-- The tree holds these nodes under these keys. -/
structure Agrees (t : Tree Offset K) (keys : Finset K) (owner : K → OffsetPtr) : Prop where
  keys : (t.entries.map Prod.fst).toFinset = keys
  owner : ∀ key a, (key, a) ∈ t.entries ↔ owner key = some a

variable {t : Tree Offset K} {keys : Finset K} {owner : K → OffsetPtr}

theorem Agrees.none_iff (h : Agrees t keys owner) (key : K) :
    owner key = none ↔ ∀ e ∈ t.entries, e.1 ≠ key := by
  constructor
  · rintro hnone ⟨key', a⟩ hmem rfl
    rw [(h.owner key' a).mp hmem] at hnone
    exact absurd hnone (by simp)
  · intro hall
    by_contra hsome
    obtain ⟨a, ha⟩ := Option.ne_none_iff_exists'.mp hsome
    exact hall (key, a) ((h.owner key a).mpr ha) rfl

/-- An operation keeps the tree a red-black tree and does to its keys what it should. -/
theorem apply_spec {op : Op K} {fuel : Nat} (h : Valid s t) (hagrees : Agrees t keys owner)
    (hnew : New owner op) (hfuel : t.entries.length + 1 < fuel) :
    ∃ s' t', s.apply fuel op = some (answer owner op, s') ∧ Valid s' t' ∧
      Agrees t' (keysAfter keys op) (ownersAfter owner op) ∧
      t'.entries.length ≤ t.entries.length + 1 := by
  cases op with
  | emplace off key =>
    have hoff : off ∉ t.addrs := by
      intro hmem
      obtain ⟨⟨key', a⟩, hentry, ha⟩ := List.mem_map.mp hmem
      dsimp only at ha
      subst ha
      exact hnew key' ((hagrees.owner key' a).mp hentry)
    have hvalid : Valid (s.modify off fun n => { n with key := key }) t :=
      ⟨⟨h.rep.above, holds_modify hoff h.rep.held, h.rep.apart⟩, h.ordered, h.balanced, h.black,
        h.size⟩
    obtain ⟨s', t', hemplace, hvalid', hentries⟩ := emplace_spec hvalid hoff hfuel
    have hkey : ((s.modify off fun n => { n with key := key }).mem off).key = key := by
      rw [modify_mem_self]
    rw [hkey] at hentries
    refine ⟨s', t', by rw [RbTree.apply, hemplace]; rfl, hvalid', ?_, ?_⟩
    · rcases hentries with ⟨⟨e, he, hdup⟩, hsame⟩ | ⟨hnone, l, r, hold, hnew'⟩
      · have hmem : key ∈ keys := by
          rw [← hagrees.keys, List.mem_toFinset, ← hdup]
          exact List.mem_map_of_mem he
        have hsome : owner key ≠ none := fun hnone => (hagrees.none_iff key).mp hnone e he hdup
        refine ⟨?_, ?_⟩
        · rw [hsame, hagrees.keys, keysAfter, Finset.insert_eq_of_mem hmem]
        · rw [hsame, ownersAfter, if_neg hsome]
          exact hagrees.owner
      · have howner := (hagrees.none_iff key).mpr hnone
        refine ⟨?_, ?_⟩
        · rw [keysAfter, ← hagrees.keys, hold, hnew']
          ext key'
          simp only [List.map_append, List.map_cons, List.mem_toFinset, List.mem_append,
            List.mem_cons, Finset.mem_insert]
          tauto
        · intro key' a
          have hmem := hagrees.owner key' a
          rw [hold, List.mem_append] at hmem
          rw [ownersAfter, if_pos howner, hnew', List.mem_append, List.mem_cons]
          by_cases heq : key' = key
          · subst heq
            rw [Function.update_self]
            rw [howner] at hmem
            simp only [Prod.mk.injEq, true_and, Option.some.injEq, eq_comm]
            simp only [reduceCtorEq, iff_false, not_or] at hmem
            tauto
          · rw [Function.update_of_ne heq, ← hmem]
            simp [heq]
    · rcases hentries with ⟨_, hsame⟩ | ⟨_, l, r, hold, hnew'⟩
      · rw [hsame]
        omega
      · rw [hold, hnew']
        simp
        omega
  | pop key =>
    rcases pop_spec h key (show _ < fuel by omega) with ⟨hpop, hnone⟩ |
      ⟨s', t', a, l, r, hpop, hold, hnew', hvalid'⟩
    · have howner := (hagrees.none_iff key).mpr hnone
      refine ⟨s, t, by rw [RbTree.apply, hpop, answer, howner], h, ⟨?_, ?_⟩, by omega⟩
      · have hmem : key ∉ keys := by
          rw [← hagrees.keys, List.mem_toFinset]
          intro hmem
          obtain ⟨e, he, hkey⟩ := List.mem_map.mp hmem
          exact hnone e he hkey
        rw [keysAfter, Finset.erase_eq_of_notMem hmem, hagrees.keys]
      · rw [ownersAfter, ← howner, Function.update_eq_self]
        exact hagrees.owner
    · have howner : owner key = some a := (hagrees.owner key a).mp (by rw [hold]; simp)
      have hdistinct : ∀ e ∈ l ++ r, e.1 ≠ key := by
        have hnodup := h.ordered.imp (fun hlt => ne_of_lt hlt)
        rw [hold, List.map_append, List.map_cons] at hnodup
        have hmiddle := List.nodup_middle.mp hnodup
        intro e he hkey
        refine (List.nodup_cons.mp hmiddle).1 ?_
        rw [← List.map_append]
        show key ∈ (l ++ r).map Prod.fst
        rw [← hkey]
        exact List.mem_map_of_mem he
      refine ⟨s', t', by rw [RbTree.apply, hpop, answer, howner], hvalid', ⟨?_, ?_⟩, ?_⟩
      · rw [keysAfter, ← hagrees.keys, hold, hnew']
        ext key'
        simp only [List.map_append, List.map_cons, List.mem_toFinset, List.mem_append,
          List.mem_cons, Finset.mem_erase]
        have hne : key' ∈ l.map Prod.fst ∨ key' ∈ r.map Prod.fst → key' ≠ key := by
          rw [← List.mem_append, ← List.map_append]
          intro hmem
          obtain ⟨e, he, hkey⟩ := List.mem_map.mp hmem
          rw [← hkey]
          exact hdistinct e he
        tauto
      · intro key' b
        have hmem := hagrees.owner key' b
        rw [hold, List.mem_append, List.mem_cons] at hmem
        rw [ownersAfter, hnew']
        by_cases heq : key' = key
        · subst heq
          rw [Function.update_self]
          simp only [reduceCtorEq, iff_false]
          exact fun hb => hdistinct _ hb rfl
        · rw [Function.update_of_ne heq, ← hmem, List.mem_append]
          simp [heq]
      · rw [hold, hnew']
        simp
        omega

/-- The same for a sequence of operations. -/
theorem run_spec {fuel : Nat} (ops : List (Op K)) (h : Valid s t) (hagrees : Agrees t keys owner)
    (hnew : AllNew owner ops) (hfuel : t.entries.length + ops.length + 1 < fuel) :
    ∃ s' t', s.run fuel ops = some (answers owner ops, s') ∧ Valid s' t' ∧
      Agrees t' (ops.foldl keysAfter keys) (ops.foldl ownersAfter owner) ∧
      t'.entries.length ≤ t.entries.length + ops.length := by
  induction ops generalizing s t keys owner with
  | nil => exact ⟨s, t, rfl, h, hagrees, by simp⟩
  | cons op ops ih =>
    rw [List.length_cons] at hfuel
    obtain ⟨s₁, t₁, happly, hvalid, hagrees₁, hlength⟩ :=
      apply_spec h hagrees hnew.1 (show _ < fuel by omega)
    obtain ⟨s', t', hrun, hvalid', hagrees', hlength'⟩ := ih hvalid hagrees₁ hnew.2 (by omega)
    refine ⟨s', t', ?_, hvalid', hagrees', ?_⟩
    · simp only [run, happly, Option.bind_eq_bind, Option.bind_some, hrun, answers]
    · rw [List.length_cons]
      omega

end

/--
**The red-black tree.**  After any sequence of `emplace` of nodes that are not in the tree and
`pop`, with enough steps for the loops, the memory is a red-black tree: a search tree with
consistent parent links, a black root, no red node with a red child, and as many black nodes
on each way down.  Its keys are those that were inserted and not removed since, `size` counts
them, `find` returns the node of a key and nothing for a key that is not there, and every
`pop` has returned the node that its key had then.
-/
theorem redBlack_of_run [LinearOrder K] (mem : Offset → RbNode K) (ops : List (Op K))
    (hnew : AllNew (fun _ => none) ops) {fuel : Nat} (hfuel : ops.length + 1 < fuel) :
    ∃ s t, (init mem).run fuel ops = some (answers (fun _ => none) ops, s) ∧ Valid s t ∧
      (t.entries.map Prod.fst).toFinset = ops.foldl keysAfter ∅ ∧
      s.size = (ops.foldl keysAfter ∅).card ∧
      ∀ key, s.findNode fuel key = some (ops.foldl ownersAfter (fun _ => none) key) ∧
        (ops.foldl ownersAfter (fun _ => none) key ≠ none ↔ key ∈ ops.foldl keysAfter ∅) := by
  have hinit : Valid (init mem) (.nil : Tree Offset K) :=
    ⟨⟨rfl, trivial, by simp [Path.addrs, Path.before, Path.after]⟩, by simp [Tree.entries],
      ⟨0, rfl⟩, rfl, rfl⟩
  have hagrees : Agrees (.nil : Tree Offset K) ∅ fun _ => none :=
    ⟨by simp [Tree.entries], by simp [Tree.entries]⟩
  obtain ⟨s, t, hrun, hvalid, hagrees, hlength⟩ :=
    run_spec ops hinit hagrees hnew (show _ < fuel by simpa [Tree.entries] using hfuel)
  simp only [Tree.entries, List.length_nil, Nat.zero_add] at hlength
  refine ⟨s, t, hrun, hvalid, hagrees.keys, ?_, ?_⟩
  · rw [hvalid.size, ← hagrees.keys, List.toFinset_card_of_nodup
      (hvalid.ordered.imp fun hlt => ne_of_lt hlt), List.length_map]
  · intro key
    refine ⟨?_, ?_⟩
    · rw [findNode, hvalid.rep.root_of_nil]
      rcases findLoop_spec key hvalid.rep.held hvalid.ordered (show _ < fuel by omega) with
        ⟨hfind, hnone⟩ | ⟨path, c, a, l, r, hfind, hplug⟩
      · rw [hfind, (hagrees.none_iff key).mpr hnone]
      · rw [hfind, (hagrees.owner key a).mp]
        rw [hplug, entries_plug]
        simp [entries_branch]
    · rw [← hagrees.keys, List.mem_toFinset, Ne, hagrees.none_iff]
      simp

/-- Three keys, one of them twice, and a `pop` of the first. -/
def fewOps : List (Op Nat) :=
  [.emplace 8 5, .emplace 16 3, .emplace 24 7, .emplace 32 3, .pop 5, .pop 4]

theorem redBlack_of_run_few :
    ∃ s t, (init fun _ => ⟨0, .red, none, none, none⟩).run 8 fewOps =
        some ([none, none, none, none, some 8, none], s) ∧ Valid s t ∧
      (t.entries.map Prod.fst).toFinset = {3, 7} ∧ s.size = 2 := by
  have hnew : AllNew (fun _ => none) fewOps := by
    refine ⟨by simp [New], ?_, ?_, ?_, trivial, trivial, trivial⟩ <;>
      simp [New, ownersAfter, Function.update_apply, ite_eq_iff]
  obtain ⟨s, t, hrun, hvalid, hkeys, hsize, -⟩ :=
    redBlack_of_run (fun _ => ⟨0, .red, none, none, none⟩) fewOps hnew (show _ < 8 by decide)
  exact ⟨s, t, hrun, hvalid, hkeys.trans (by decide), hsize.trans (by decide)⟩

end RbTree
end Shm
end IowarpCore
