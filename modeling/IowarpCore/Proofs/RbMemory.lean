/-
What the memory of a red-black tree holds.

`Rep s path t` says that the memory of `s` is a tree with the subtree `t` at the end of
`path`: every node has the key, the color and the pointers it has in the tree, the parent
pointer included, and no two nodes share an address.  `rep_cons` moves along the path, so that
an operation on a node is stated where the node is.

Every write of the source then has one lemma: a color changes, a rotation turns a node and
its child around, `Transplant` puts a subtree in the place of a node.
-/
import IowarpCore.Shm.RbTree

namespace IowarpCore
namespace Shm
namespace RbTree

open RedBlack RedBlack.Tree RedBlack.Path

variable {K : Type} {s : RbTree K} {d : Side} {c c' : RBColor} {a b : Offset} {k k' : K}
  {p q near far : OffsetPtr}

/-- The cell of a node with one child on side `d` and one on the other. -/
def cell (d : Side) (c : RBColor) (k : K) (near far parent : OffsetPtr) : RbNode K :=
  match d with
  | .left => ⟨k, c, near, far, parent⟩
  | .right => ⟨k, c, far, near, parent⟩

@[simp] theorem cell_key : (cell d c k near far p).key = k := by cases d <;> rfl

@[simp] theorem cell_color : (cell d c k near far p).color = c := by cases d <;> rfl

@[simp] theorem cell_parent : (cell d c k near far p).parent = p := by cases d <;> rfl

@[simp] theorem cell_child : (cell d c k near far p).child d = near := by cases d <;> rfl

@[simp] theorem cell_child_other : (cell d c k near far p).child d.other = far := by
  cases d <;> rfl

/-! ### Writes -/

@[simp] theorem modify_root (f : RbNode K → RbNode K) : (s.modify a f).root = s.root := rfl

@[simp] theorem modify_size (f : RbNode K → RbNode K) : (s.modify a f).size = s.size := rfl

@[simp] theorem modify_mem_self (f : RbNode K → RbNode K) :
    (s.modify a f).mem a = f (s.mem a) := by
  simp [modify]

theorem modify_mem_of_ne (f : RbNode K → RbNode K) (h : b ≠ a) :
    (s.modify a f).mem b = s.mem b := by
  simp [modify, h]

@[simp] theorem setParent_key : ((s.setParent a q).mem b).key = (s.mem b).key := by
  simp only [setParent, modify]
  split <;> rfl

theorem setColor_cell (h : s.mem a = cell d c k near far p) :
    (s.setColor a c').mem a = cell d c' k near far p := by
  rw [setColor, modify_mem_self, h]
  cases d <;> rfl

theorem setParent_cell (h : s.mem a = cell d c k near far p) :
    (s.setParent a q).mem a = cell d c k near far q := by
  rw [setParent, modify_mem_self, h]
  cases d <;> rfl

theorem setChild_cell (h : s.mem a = cell d c k near far p) :
    (s.setChild d a q).mem a = cell d c k q far p := by
  rw [setChild, modify_mem_self, h]
  cases d <;> rfl

theorem setChild_other_cell (h : s.mem a = cell d c k near far p) :
    (s.setChild d.other a q).mem a = cell d c k near q p := by
  rw [setChild, modify_mem_self, h]
  cases d <;> rfl

@[simp] theorem reparent_size (v : OffsetPtr) : (s.reparent v q).size = s.size := by
  cases v <;> rfl

@[simp] theorem reparent_root (v : OffsetPtr) : (s.reparent v q).root = s.root := by
  cases v <;> rfl

@[simp] theorem blacken_size (v : OffsetPtr) : (s.blacken v).size = s.size := by
  cases v <;> rfl

@[simp] theorem relink_size (v : OffsetPtr) : (s.relink a v q).size = s.size := by
  unfold relink
  split
  · rfl
  · split <;> rfl

@[simp] theorem transplant_size (v : OffsetPtr) : (s.transplant a v).size = s.size := by
  simp [transplant]

theorem rotate_size {s' : RbTree K} (h : s.rotate d a = some s') : s'.size = s.size := by
  simp only [rotate, Option.bind_eq_bind, Option.bind_eq_some_iff, Option.some.injEq] at h
  obtain ⟨y, _, rfl⟩ := h
  simp [setParent, setChild]

/-! ### Trees in memory -/

/-- The memory holds the tree, below a parent. -/
def Holds (mem : Offset → RbNode K) : OffsetPtr → Tree Offset K → Prop
  | _, .nil => True
  | parent, .node c l a k r =>
    mem a = ⟨k, c, l.root, r.root, parent⟩ ∧ Holds mem (some a) l ∧ Holds mem (some a) r

/-- The memory holds what is above a subtree with that root. -/
def Above (s : RbTree K) : Path Offset K → OffsetPtr → Prop
  | [], child => s.root = child
  | f :: path, child =>
    s.mem f.addr = cell f.side f.color f.key child f.sibling.root (Path.parent path) ∧
      Holds s.mem (some f.addr) f.sibling ∧ Above s path (some f.addr)

/-- The memory holds the subtree at the end of the path, and what is above it. -/
structure Rep (s : RbTree K) (path : Path Offset K) (t : Tree Offset K) : Prop where
  above : Above s path t.root
  held : Holds s.mem path.parent t
  apart : t.addrs.Nodup ∧ path.addrs.Nodup ∧ t.addrs.Disjoint path.addrs

section

variable {mem mem' : Offset → RbNode K} {t x y z : Tree Offset K} {path : Path Offset K}
  {f : Step Offset K}

@[simp] theorem holds_nil : Holds mem p (.nil : Tree Offset K) := trivial

theorem holds_branch : Holds mem p (branch d c a k x y) ↔
    mem a = cell d c k x.root y.root p ∧ Holds mem (some a) x ∧ Holds mem (some a) y := by
  cases d with
  | left => exact Iff.rfl
  | right => exact and_congr_right fun _ => and_comm

theorem mem_addrs_branch {e : Offset} :
    e ∈ (branch d c a k x y).addrs ↔ e = a ∨ e ∈ x.addrs ∨ e ∈ y.addrs := by
  cases d <;> simp only [Tree.addrs, entries_branch, List.map_append, List.map_cons,
    List.mem_append, List.mem_cons] <;> tauto

theorem nodup_branch : (branch d c a k x y).addrs.Nodup ↔
    a ∉ x.addrs ∧ a ∉ y.addrs ∧ x.addrs.Nodup ∧ y.addrs.Nodup ∧ x.addrs.Disjoint y.addrs := by
  have hperm : (branch d c a k x y).addrs.Perm (a :: (x.addrs ++ y.addrs)) := by
    cases d with
    | left =>
      simp only [Tree.addrs, entries_branch, List.map_append, List.map_cons]
      exact List.perm_middle
    | right =>
      simp only [Tree.addrs, entries_branch, List.map_append, List.map_cons]
      exact List.perm_middle.trans (List.perm_append_comm.cons a)
  rw [hperm.nodup_iff, List.nodup_cons, List.nodup_append', List.mem_append]
  tauto

theorem mem_addrs_of_root (h : t.root = some a) : a ∈ t.addrs := by
  cases t with
  | nil => simp [Tree.root] at h
  | node c l a' k r =>
    simp only [Tree.root, Option.some.injEq] at h
    simp [Tree.addrs, Tree.entries, h]

/-- What a tree is depends on its own cells. -/
theorem holds_congr (hsame : ∀ e ∈ t.addrs, mem' e = mem e) (h : Holds mem p t) :
    Holds mem' p t := by
  induction t generalizing p with
  | nil => trivial
  | node c l a k r ihl ihr =>
    obtain ⟨hcell, hl, hr⟩ := h
    refine ⟨?_, ihl ?_ hl, ihr ?_ hr⟩
    · rw [hsame a (mem_addrs_of_root rfl), hcell]
    · intro e he
      exact hsame e ((@mem_addrs_branch K .left c a k l r e).mpr (Or.inr (Or.inl he)))
    · intro e he
      exact hsame e ((@mem_addrs_branch K .left c a k l r e).mpr (Or.inr (Or.inr he)))

theorem above_congr {s' : RbTree K} (hroot : s'.root = s.root)
    (hsame : ∀ e ∈ path.addrs, s'.mem e = s.mem e) (h : Above s path p) : Above s' path p := by
  induction path generalizing p with
  | nil =>
    rw [Above, hroot]
    exact h
  | cons f path ih =>
    obtain ⟨hcell, hsib, habove⟩ := h
    refine ⟨?_, holds_congr ?_ hsib, ih ?_ habove⟩
    · rw [hsame _ (mem_addrs_cons.mpr (Or.inl rfl)), hcell]
    · intro e he
      exact hsame e (mem_addrs_cons.mpr (Or.inr (Or.inl he)))
    · intro e he
      exact hsame e (mem_addrs_cons.mpr (Or.inr (Or.inr he)))

theorem nodup_addrs_cons : (addrs (f :: path)).Nodup ↔
    f.addr ∉ f.sibling.addrs ∧ f.addr ∉ path.addrs ∧ f.sibling.addrs.Nodup ∧
      path.addrs.Nodup ∧ f.sibling.addrs.Disjoint path.addrs := by
  have hmem : ∀ e, e ∈ (branch f.side f.color f.addr f.key (.nil : Tree Offset K) f.sibling).addrs ↔
      e = f.addr ∨ e ∈ f.sibling.addrs := by
    intro e
    simp [mem_addrs_branch]
  have hplug := @nodup_plug Offset K (f :: path) .nil
  rw [plug_cons, nodup_plug, List.nodup_append', nodup_branch] at hplug
  simp only [addrs_nil, List.nil_append, List.not_mem_nil, not_false_eq_true, List.nodup_nil,
    List.disjoint_nil_left, true_and, and_true] at hplug
  rw [← hplug]
  constructor
  · rintro ⟨⟨h₁, h₂⟩, h₃, h₄⟩
    exact ⟨h₁, h₄ ((hmem _).mpr (Or.inl rfl)), h₂, h₃, fun e he => h₄ ((hmem _).mpr (Or.inr he))⟩
  · rintro ⟨h₁, h₂, h₃, h₄, h₅⟩
    refine ⟨⟨h₁, h₃⟩, h₄, ?_⟩
    intro e he
    rcases (hmem e).mp he with rfl | he
    · exact h₂
    · exact h₅ he

/-- One step along the path. -/
theorem rep_cons : Rep s (f :: path) t ↔
    Rep s path (branch f.side f.color f.addr f.key t f.sibling) := by
  constructor
  · rintro ⟨⟨hcell, hsib, habove⟩, hheld, ht, hpath, hdis⟩
    obtain ⟨h₁, h₂, h₃, h₄, h₅⟩ := nodup_addrs_cons.mp hpath
    refine ⟨by simpa using habove, holds_branch.mpr ⟨hcell, hheld, hsib⟩, ?_, h₄, ?_⟩
    · refine nodup_branch.mpr ⟨?_, h₁, ht, h₃, ?_⟩
      · intro hmem
        exact hdis hmem (mem_addrs_cons.mpr (Or.inl rfl))
      · intro e he he'
        exact hdis he (mem_addrs_cons.mpr (Or.inr (Or.inl he')))
    · intro e he he'
      rcases mem_addrs_branch.mp he with rfl | he | he
      · exact h₂ he'
      · exact hdis he (mem_addrs_cons.mpr (Or.inr (Or.inr he')))
      · exact h₅ he he'
  · rintro ⟨habove, hheld, ht, hpath, hdis⟩
    obtain ⟨hcell, hheld, hsib⟩ := holds_branch.mp hheld
    obtain ⟨h₁, h₂, h₃, h₄, h₅⟩ := nodup_branch.mp ht
    refine ⟨⟨hcell, hsib, by simpa using habove⟩, hheld, h₃, ?_, ?_⟩
    · refine nodup_addrs_cons.mpr ⟨h₂, hdis (mem_addrs_branch.mpr (Or.inl rfl)), h₄, hpath, ?_⟩
      intro e he
      exact hdis (mem_addrs_branch.mpr (Or.inr (Or.inr he)))
    · intro e he he'
      rcases mem_addrs_cons.mp he' with rfl | he' | he'
      · exact h₁ he
      · exact h₅ he he'
      · exact hdis (mem_addrs_branch.mpr (Or.inr (Or.inl he))) he'

theorem Rep.down (h : Rep s path (branch d c a k x y)) : Rep s (⟨d, c, a, k, y⟩ :: path) x :=
  rep_cons.mpr h

theorem Rep.climb (h : Rep s (⟨d, c, a, k, y⟩ :: path) x) : Rep s path (branch d c a k x y) :=
  rep_cons.mp h

theorem Rep.downFar (h : Rep s path (branch d c a k x y)) :
    Rep s (⟨d.other, c, a, k, x⟩ :: path) y := by
  rw [← branch_other] at h
  exact h.down

theorem Rep.climbFar (h : Rep s (⟨d.other, c, a, k, x⟩ :: path) y) :
    Rep s path (branch d c a k x y) := by
  rw [← branch_other]
  exact h.climb

theorem rep_plug : Rep s path t ↔ Rep s [] (plug path t) := by
  induction path generalizing t with
  | nil => exact Iff.rfl
  | cons f path ih =>
    rw [rep_cons, plug_cons]
    exact ih

theorem rep_append {ups : Path Offset K} : Rep s (ups ++ path) t ↔ Rep s path (plug ups t) := by
  rw [rep_plug, plug_append, ← rep_plug]

/-! ### Reads -/

theorem Rep.cell (h : Rep s path (branch d c a k x y)) :
    s.mem a = cell d c k x.root y.root path.parent :=
  (holds_branch.mp h.held).1

theorem Rep.up (h : Rep s (f :: path) t) :
    s.mem f.addr = RbTree.cell f.side f.color f.key t.root f.sibling.root path.parent :=
  h.above.1

theorem Rep.sideOf (h : Rep s (f :: path) t) (hroot : t.root = some a) :
    s.sideOf f.addr a = f.side := by
  have hne : f.sibling.root ≠ some a := by
    intro hsib
    exact h.apart.2.2 (mem_addrs_of_root hroot)
      (mem_addrs_cons.mpr (Or.inr (Or.inl (mem_addrs_of_root hsib))))
  rw [RbTree.sideOf, h.up, hroot]
  cases f.side with
  | left => simp [RbTree.cell]
  | right => simp [RbTree.cell, hne]

theorem isBlack_of_holds (h : Holds s.mem p t) : s.isBlack t.root = !t.isRed := by
  cases t with
  | nil => rfl
  | node c l a k r =>
    rw [Tree.root, isBlack, h.1, Tree.isRed]
    cases c <;> rfl

theorem Rep.root_of_nil (h : Rep s [] t) : s.root = t.root := h.above

/-- A node below another one is not the root. -/
theorem Rep.ne_root (h : Rep s (f :: path) t) (ha : t.root = some a) : s.root ≠ some a := by
  obtain ⟨r, hroot, hmem⟩ := root_plug_mem f path t
  rw [(rep_plug.mp h).root_of_nil, hroot]
  intro heq
  rw [Option.some.injEq] at heq
  subst heq
  exact h.apart.2.2 (mem_addrs_of_root ha) hmem

/-! ### Writes to a tree -/

/-- The counter is not part of the tree. -/
theorem Rep.resize (h : Rep s path t) (size : Nat) : Rep { s with size := size } path t :=
  ⟨above_congr (s := s) rfl (fun _ _ => rfl) h.above, h.held, h.apart⟩

theorem holds_modify {g : RbNode K → RbNode K} (ha : a ∉ t.addrs) (h : Holds s.mem p t) :
    Holds (s.modify a g).mem p t := by
  refine holds_congr ?_ h
  intro e he
  exact modify_mem_of_ne g (ne_of_mem_of_not_mem he ha)

theorem above_modify {g : RbNode K → RbNode K} (ha : a ∉ path.addrs) (h : Above s path p) :
    Above (s.modify a g) path p := by
  refine above_congr (s := s) rfl ?_ h
  intro e he
  exact modify_mem_of_ne g (ne_of_mem_of_not_mem he ha)

theorem reparent_mem (ha : a ∉ t.addrs) : (s.reparent t.root q).mem a = s.mem a := by
  unfold reparent
  split
  · rfl
  next v hroot => exact modify_mem_of_ne _ fun heq => ha (heq ▸ mem_addrs_of_root hroot)

theorem holds_reparent (h : Holds s.mem p t) (hnodup : t.addrs.Nodup) :
    Holds (s.reparent t.root q).mem q t := by
  cases t with
  | nil => trivial
  | node c l a k r =>
    obtain ⟨hal, har, -⟩ := (@nodup_branch K .left c a k l r).mp hnodup
    obtain ⟨hcell, hl, hr⟩ := h
    exact ⟨@setParent_cell K s .left c a k p q l.root r.root hcell, holds_modify hal hl,
      holds_modify har hr⟩

theorem relink_mem {v : OffsetPtr} {u : Offset} (ha : a ∉ path.addrs) :
    (s.relink u v path.parent).mem a = s.mem a := by
  cases path with
  | nil => rfl
  | cons f path =>
    have hne : a ≠ f.addr := fun heq => ha (mem_addrs_cons.mpr (Or.inl heq))
    simp only [parent_cons, relink]
    split
    · exact modify_mem_of_ne _ hne
    · exact modify_mem_of_ne _ hne

/-- Something else hangs at the end of the path. -/
theorem above_relink {u : Offset} {v : OffsetPtr} (h : Above s path (some u))
    (hu : u ∉ path.addrs) (hnodup : path.addrs.Nodup) :
    Above (s.relink u v path.parent) path v := by
  cases path with
  | nil => rfl
  | cons f path =>
    obtain ⟨hcell, hsib, habove⟩ := h
    obtain ⟨hfsib, hfpath, -⟩ := nodup_addrs_cons.mp hnodup
    have hne : f.sibling.root ≠ some u := by
      intro hroot
      exact hu (mem_addrs_cons.mpr (Or.inr (Or.inl (mem_addrs_of_root hroot))))
    have hset : s.relink u v (parent (f :: path)) = s.setChild f.side f.addr v := by
      rw [parent_cons, relink, hcell]
      cases f.side with
      | left => simp [RbTree.cell]
      | right => simp [RbTree.cell, hne]
    rw [hset]
    exact ⟨setChild_cell hcell, holds_modify hfsib hsib, above_modify hfpath habove⟩

/-- A color changes. -/
theorem Rep.setColor (h : Rep s path (branch d c a k x y)) (c' : RBColor) :
    Rep (s.setColor a c') path (branch d c' a k x y) := by
  obtain ⟨habove, hheld, hapart⟩ := h
  obtain ⟨hcell, hx, hy⟩ := holds_branch.mp hheld
  obtain ⟨hax, hay, -⟩ := nodup_branch.mp hapart.1
  have hpath : a ∉ path.addrs := hapart.2.2 (mem_addrs_branch.mpr (Or.inl rfl))
  rw [root_branch] at habove
  refine ⟨?_, holds_branch.mpr ⟨setColor_cell hcell, holds_modify hax hx, holds_modify hay hy⟩, ?_⟩
  · rw [root_branch]
    exact above_modify hpath habove
  · rw [Tree.addrs, entries_recolor d c' c]
    exact hapart

/-- The root of a subtree is made black. -/
theorem Rep.blacken (h : Rep s path t) : Rep (s.blacken t.root) path t.blacken := by
  cases t with
  | nil => exact h
  | node c l a k r => exact @Rep.setColor K s .left c a k l r path h .black

/-- A node and its far child are turned around. -/
theorem Rep.rotate (h : Rep s path (branch d c a k x (branch d c' b k' y z))) :
    ∃ s', s.rotate d a = some s' ∧ Rep s' path (branch d c' b k' (branch d c a k x y) z) ∧
      s'.size = s.size := by
  obtain ⟨habove, hheld, hapart⟩ := h
  obtain ⟨hcell, hx, hheld'⟩ := holds_branch.mp hheld
  obtain ⟨hcell', hy, hz⟩ := holds_branch.mp hheld'
  obtain ⟨hax, hab, hnx, hnb, hxb⟩ := nodup_branch.mp hapart.1
  obtain ⟨hby, hbz, hny, hnz, hyz⟩ := nodup_branch.mp hnb
  rw [mem_addrs_branch, not_or, not_or] at hab
  obtain ⟨hne, hay, haz⟩ := hab
  have hpath : ∀ e, (e = a ∨ e ∈ x.addrs ∨ e = b ∨ e ∈ y.addrs ∨ e ∈ z.addrs) →
      e ∉ path.addrs := by
    intro e he
    refine hapart.2.2 (mem_addrs_branch.mpr ?_)
    rw [mem_addrs_branch]
    exact he
  have hbx : b ∉ x.addrs := fun hb => hxb hb (mem_addrs_branch.mpr (Or.inl rfl))
  have hxy : ∀ e ∈ x.addrs, e ∉ y.addrs := fun e he he' =>
    hxb he (mem_addrs_branch.mpr (Or.inr (Or.inl he')))
  rw [root_branch] at habove hcell
  have hap : a ∉ path.addrs := hpath a (Or.inl rfl)
  have hbp : b ∉ path.addrs := hpath b (Or.inr (Or.inr (Or.inl rfl)))
  -- The six writes of the source, one after another.
  obtain ⟨s₁, hs₁⟩ : ∃ s₁, s₁ = s.setChild d.other a y.root := ⟨_, rfl⟩
  obtain ⟨s₂, hs₂⟩ : ∃ s₂, s₂ = s₁.reparent y.root (some a) := ⟨_, rfl⟩
  obtain ⟨s₃, hs₃⟩ : ∃ s₃, s₃ = s₂.setParent b path.parent := ⟨_, rfl⟩
  obtain ⟨s₄, hs₄⟩ : ∃ s₄, s₄ = s₃.relink a (some b) path.parent := ⟨_, rfl⟩
  have ha₁ : s₁.mem a = RbTree.cell d c k x.root y.root path.parent := by
    rw [hs₁]
    exact setChild_other_cell hcell
  have hb₁ : s₁.mem b = s.mem b := by
    rw [hs₁]
    exact modify_mem_of_ne _ (Ne.symm hne)
  have ha₂ : s₂.mem a = RbTree.cell d c k x.root y.root path.parent := by
    rw [hs₂, reparent_mem hay, ha₁]
  have hb₂ : s₂.mem b = RbTree.cell d c' k' y.root z.root (some a) := by
    rw [hs₂, reparent_mem hby, hb₁, hcell']
  have ha₃ : s₃.mem a = RbTree.cell d c k x.root y.root path.parent := by
    rw [hs₃, setParent, modify_mem_of_ne _ hne, ha₂]
  have hb₃ : s₃.mem b = RbTree.cell d c' k' y.root z.root path.parent := by
    rw [hs₃]
    exact setParent_cell hb₂
  have ha₄ : s₄.mem a = RbTree.cell d c k x.root y.root path.parent := by
    rw [hs₄, relink_mem hap, ha₃]
  have hb₄ : s₄.mem b = RbTree.cell d c' k' y.root z.root path.parent := by
    rw [hs₄, relink_mem hbp, hb₃]
  have hrotate : s.rotate d a = some ((s₄.setChild d b (some a)).setParent a (some b)) := by
    have hchild : (s₁.mem b).child d = y.root := by rw [hb₁, hcell', cell_child]
    simp only [RbTree.rotate, hcell, cell_child_other, Option.bind_eq_bind, Option.bind_some,
      hcell', cell_child]
    rw [← hs₁, hchild, ← hs₂, ha₂, cell_parent, ← hs₃, ha₃, cell_parent, ← hs₄]
  -- What none of the writes touches.
  have hsame : ∀ e, e ≠ a → e ≠ b → e ∉ y.addrs → e ∉ path.addrs →
      ((s₄.setChild d b (some a)).setParent a (some b)).mem e = s.mem e := by
    intro e hea heb hey hep
    rw [setParent, modify_mem_of_ne _ hea, setChild, modify_mem_of_ne _ heb, hs₄, relink_mem hep,
      hs₃, setParent, modify_mem_of_ne _ heb, hs₂, reparent_mem hey, hs₁, setChild,
      modify_mem_of_ne _ hea]
  refine ⟨_, hrotate, ⟨?_, ?_, ?_⟩, rotate_size hrotate⟩
  · rw [root_branch]
    refine above_modify hap (above_modify hbp ?_)
    rw [hs₄]
    refine above_relink ?_ hap hapart.2.1
    rw [hs₃]
    refine above_modify hbp ?_
    rw [hs₂, hs₁]
    refine above_congr (by simp [setChild]) ?_ habove
    intro e he
    have hey : e ∉ y.addrs := fun hy' => hpath e (Or.inr (Or.inr (Or.inr (Or.inl hy')))) he
    rw [reparent_mem hey, setChild, modify_mem_of_ne _ (ne_of_mem_of_not_mem he hap)]
  · refine holds_branch.mpr ⟨?_, holds_branch.mpr ⟨?_, ?_, ?_⟩, ?_⟩
    · rw [setParent, modify_mem_of_ne _ (Ne.symm hne), root_branch]
      exact setChild_cell hb₄
    · refine setParent_cell (p := path.parent) ?_
      rw [setChild, modify_mem_of_ne _ hne]
      exact ha₄
    · refine holds_congr ?_ hx
      intro e he
      exact hsame e (ne_of_mem_of_not_mem he hax) (ne_of_mem_of_not_mem he hbx) (hxy e he)
        (hpath e (Or.inr (Or.inl he)))
    · have hy₂ : Holds s₂.mem (some a) y := by
        rw [hs₂, hs₁]
        exact holds_reparent (holds_modify hay hy) hny
      refine holds_modify hay (holds_modify hby ?_)
      refine holds_congr ?_ hy₂
      intro e he
      rw [hs₄, relink_mem (hpath e (Or.inr (Or.inr (Or.inr (Or.inl he))))), hs₃, setParent,
        modify_mem_of_ne _ (ne_of_mem_of_not_mem he hby)]
    · refine holds_congr ?_ hz
      intro e he
      exact hsame e (ne_of_mem_of_not_mem he haz) (ne_of_mem_of_not_mem he hbz)
        (fun hy' => hyz hy' he) (hpath e (Or.inr (Or.inr (Or.inr (Or.inr he)))))
  · rw [Tree.addrs, entries_rotate d c c' c c']
    exact hapart

/-- A subtree takes the place of its parent, which has no other. -/
theorem Rep.transplant (h : Rep s path (branch d c a k .nil x)) :
    Rep (s.transplant a x.root) path x ∧ (s.transplant a x.root).mem a = s.mem a := by
  obtain ⟨habove, hheld, hapart⟩ := h
  obtain ⟨hcell, -, hx⟩ := holds_branch.mp hheld
  obtain ⟨-, hax, -, hnx, -⟩ := nodup_branch.mp hapart.1
  have hap : a ∉ path.addrs := hapart.2.2 (mem_addrs_branch.mpr (Or.inl rfl))
  have hxp : ∀ e ∈ x.addrs, e ∉ path.addrs := fun e he =>
    hapart.2.2 (mem_addrs_branch.mpr (Or.inr (Or.inr he)))
  rw [root_branch] at habove
  have hmem : (s.relink a x.root path.parent).mem a = s.mem a := relink_mem hap
  have htransplant : s.transplant a x.root =
      (s.relink a x.root path.parent).reparent x.root path.parent := by
    rw [RbTree.transplant, hcell, cell_parent, hmem, hcell, cell_parent]
  rw [htransplant]
  refine ⟨⟨?_, ?_, hnx, hapart.2.1, hxp⟩, ?_⟩
  · refine above_congr (s := s.relink a x.root path.parent) (by simp) ?_
      (above_relink habove hap hapart.2.1)
    intro e he
    exact reparent_mem fun hx' => hxp e hx' he
  · refine holds_reparent (p := some a) (holds_congr ?_ hx) hnx
    intro e he
    exact relink_mem (hxp e he)
  · rw [reparent_mem hax, hmem]

/-- A node that is not in the tree takes the place of one that is, with the right subtree it
has already. -/
theorem rep_takePlace {l r : Tree Offset K} (habove : Above s path (some a))
    (hcell : s.mem a = ⟨k, c, l.root, p, path.parent⟩) (hcell' : s.mem b = ⟨k', c', q, r.root, near⟩)
    (hl : Holds s.mem (some a) l) (hr : Holds s.mem (some b) r)
    (hapart : (branch .left c b k' l r).addrs.Nodup ∧ path.addrs.Nodup ∧
      (branch .left c b k' l r).addrs.Disjoint path.addrs)
    (hab : a ≠ b) (hal : a ∉ l.addrs) (hap : a ∉ path.addrs) :
    Rep (s.takePlace a b) path (branch .left c b k' l r) ∧ (s.takePlace a b).size = s.size := by
  let s₂ := s.transplant a (some b)
  let s₃ := s₂.setChild .left b (s₂.mem a).left
  let s₄ := s₃.reparent (s₃.mem b).left (some b)
  show Rep (s₄.setColor b (s₄.mem a).color) path (branch .left c b k' l r) ∧
    (s₄.setColor b (s₄.mem a).color).size = s.size
  obtain ⟨hbl, hbr, hnl, hnr, hlr⟩ := nodup_branch.mp hapart.1
  have hpath : ∀ e, (e = b ∨ e ∈ l.addrs ∨ e ∈ r.addrs) → e ∉ path.addrs := fun e he =>
    hapart.2.2 (mem_addrs_branch.mpr he)
  have hbp : b ∉ path.addrs := hpath b (Or.inl rfl)
  have hs₂ : s₂ = (s.relink a (some b) path.parent).setParent b path.parent := by
    have hmem : (s.relink a (some b) path.parent).mem a = s.mem a := relink_mem hap
    show s.transplant a (some b) = _
    rw [RbTree.transplant, hcell]
    show reparent (some b) ((s.relink a (some b) path.parent).mem a).parent _ = _
    rw [hmem, hcell]
    rfl
  have hother₂ : ∀ e, e ≠ b → e ∉ path.addrs → s₂.mem e = s.mem e := by
    intro e heb hep
    rw [hs₂, setParent, modify_mem_of_ne _ heb, relink_mem hep]
  have ha₂ : s₂.mem a = s.mem a := hother₂ a hab hap
  have hb₂ : s₂.mem b = ⟨k', c', q, r.root, path.parent⟩ := by
    rw [hs₂, setParent, modify_mem_self, relink_mem hbp, hcell']
  have hs₃ : s₃ = s₂.setChild .left b l.root := by
    show s₂.setChild .left b (s₂.mem a).left = _
    rw [ha₂, hcell]
  have hb₃ : s₃.mem b = ⟨k', c', l.root, r.root, path.parent⟩ := by
    rw [hs₃, setChild, modify_mem_self, hb₂]
    rfl
  have hs₄ : s₄ = s₃.reparent l.root (some b) := by
    show s₃.reparent (s₃.mem b).left (some b) = _
    rw [hb₃]
  have hother₄ : ∀ e, e ≠ b → e ∉ l.addrs → s₄.mem e = s₂.mem e := by
    intro e heb hel
    rw [hs₄, reparent_mem hel, hs₃, setChild, modify_mem_of_ne _ heb]
  have ha₄ : (s₄.mem a).color = c := by rw [hother₄ a hab hal, ha₂, hcell]
  have hb₄ : s₄.mem b = RbTree.cell .left c' k' l.root r.root path.parent := by
    rw [hs₄, reparent_mem hbl, hb₃]
    rfl
  have hroot₄ : s₄.root = s₂.root := by rw [hs₄, reparent_root, hs₃, setChild, modify_root]
  have hsize₄ : s₄.size = s.size := by
    rw [hs₄, reparent_size, hs₃, setChild, modify_size]
    exact transplant_size _
  rw [ha₄]
  refine ⟨⟨?_, holds_branch.mpr ⟨setColor_cell hb₄, ?_, ?_⟩, hapart⟩, hsize₄⟩
  · rw [root_branch]
    refine above_modify hbp (above_congr (s := s₂) hroot₄ ?_ ?_)
    · intro e he
      exact hother₄ e (ne_of_mem_of_not_mem he hbp) fun hl' => hpath e (Or.inr (Or.inl hl')) he
    · rw [hs₂]
      exact above_modify hbp (above_relink habove hap hapart.2.1)
  · refine holds_modify hbl ?_
    rw [hs₄, hs₃]
    refine holds_reparent (p := some a) (holds_modify hbl (holds_congr ?_ hl)) hnl
    intro e he
    exact hother₂ e (ne_of_mem_of_not_mem he hbl) (hpath e (Or.inr (Or.inl he)))
  · refine holds_modify hbr (holds_congr ?_ hr)
    intro e he
    have heb : e ≠ b := ne_of_mem_of_not_mem he hbr
    rw [hother₄ e heb (fun hl' => hlr hl' he), hother₂ e heb (hpath e (Or.inr (Or.inr he)))]

/-- A new leaf. -/
theorem Rep.attach (h : Rep s (f :: path) .nil) (ha : a ∉ addrs (f :: path))
    (hcell : s.mem a = ⟨k, .red, none, none, p⟩) :
    Rep ((s.setParent a (some f.addr)).setChild f.side f.addr (some a)) (f :: path)
      (branch .left .red a k .nil .nil) := by
  obtain ⟨⟨hup, hsib, habove⟩, -, -, hnodup, -⟩ := h
  obtain ⟨hfsib, hfpath, -⟩ := nodup_addrs_cons.mp hnodup
  rw [mem_addrs_cons, not_or, not_or] at ha
  obtain ⟨hne, hasib, hapath⟩ := ha
  refine ⟨⟨?_, ?_, ?_⟩, ⟨?_, trivial, trivial⟩, ?_, hnodup, ?_⟩
  · have hcell := hup
    rw [← modify_mem_of_ne _ (Ne.symm hne)] at hcell
    exact setChild_cell hcell
  · exact holds_modify hfsib (holds_modify hasib hsib)
  · exact above_modify hfpath (above_modify hapath habove)
  · rw [RbTree.setChild, modify_mem_of_ne _ hne, RbTree.setParent, modify_mem_self, hcell]
    rfl
  · simp [Tree.addrs, Tree.entries, branch]
  · intro e he he'
    simp only [Tree.addrs, Tree.entries, branch, List.nil_append, List.map_cons, List.map_nil,
      List.mem_singleton] at he
    subst he
    exact (mem_addrs_cons.mp he').elim hne fun h => h.elim hasib hapath

end

end RbTree
end Shm
end IowarpCore
