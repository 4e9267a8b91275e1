/-
Red-black trees and the paths through them.

A node of a tree has an address besides its key, so that a tree says what a memory holds.
A path is the way from a subtree up to the root: at each step the side on which the subtree
hangs, the node above it and the other subtree of that node.  `plug` puts a subtree at the
end of a path.

A node with its two subtrees is written `branch d`, with the subtree on side `d` first, so
that one statement covers a case and its mirror image.

`Balanced` is a statement about a tree and `Fits` one about a path; `balanced_plug` says that
together they make up the same statement about the whole tree.  What a rebalancing step does
to the order of the entries is nothing: it keeps the list `entries`.
-/
import Mathlib.Data.List.Nodup

namespace IowarpCore
namespace RedBlack

inductive Color where
  | red
  | black
  deriving DecidableEq, Repr

inductive Side where
  | left
  | right
  deriving DecidableEq, Repr

def Side.other : Side → Side
  | .left => .right
  | .right => .left

theorem Side.eq_other_of_ne {d e : Side} (h : d ≠ e) : d = e.other := by
  cases d <;> cases e <;> simp_all [Side.other]

variable {A K : Type}

inductive Tree (A K : Type) where
  | nil
  | node (color : Color) (left : Tree A K) (addr : A) (key : K) (right : Tree A K)

namespace Tree

/-- The address of the root. -/
def root : Tree A K → Option A
  | nil => none
  | node _ _ a _ _ => some a

@[simp] theorem root_nil : (nil : Tree A K).root = none := rfl

@[simp] theorem root_node (c : Color) (l : Tree A K) (a : A) (k : K) (r : Tree A K) :
    (node c l a k r).root = some a := rfl

def isRed : Tree A K → Bool
  | nil => false
  | node c _ _ _ _ => c == .red

/-- The keys and their addresses from left to right. -/
def entries : Tree A K → List (K × A)
  | nil => []
  | node _ l a k r => l.entries ++ (k, a) :: r.entries

def addrs (t : Tree A K) : List A := t.entries.map Prod.snd

@[simp] theorem addrs_nil : (nil : Tree A K).addrs = [] := rfl

/-- The tree with a black root. -/
def blacken : Tree A K → Tree A K
  | nil => nil
  | node _ l a k r => node .black l a k r

/-- A node with one subtree on side `d` and one on the other. -/
def branch (d : Side) (c : Color) (a : A) (k : K) (near far : Tree A K) : Tree A K :=
  match d with
  | .left => node c near a k far
  | .right => node c far a k near

section

variable {d : Side} {c : Color} {a : A} {k : K} {x y : Tree A K}

theorem branch_other : branch d.other c a k x y = branch d c a k y x := by
  cases d <;> rfl

/-- A node is a branch to either side. -/
theorem node_eq_branch (d : Side) (c : Color) (l : Tree A K) (a : A) (k : K) (r : Tree A K) :
    ∃ x y, node c l a k r = branch d c a k x y := by
  cases d with
  | left => exact ⟨l, r, rfl⟩
  | right => exact ⟨r, l, rfl⟩

@[simp] theorem root_branch : (branch d c a k x y).root = some a := by
  cases d <;> rfl

@[simp] theorem isRed_branch : (branch d c a k x y).isRed = (c == .red) := by
  cases d <;> rfl

@[simp] theorem blacken_branch : (branch d c a k x y).blacken = branch d .black a k x y := by
  cases d <;> rfl

theorem entries_branch : (branch d c a k x y).entries =
    match d with
    | .left => x.entries ++ (k, a) :: y.entries
    | .right => y.entries ++ (k, a) :: x.entries := by
  cases d <;> rfl

end

variable {t : Tree A K}

@[simp] theorem root_eq_none : t.root = none ↔ t = nil := by
  cases t <;> simp [root]

@[simp] theorem isRed_blacken (t : Tree A K) : t.blacken.isRed = false := by
  cases t <;> rfl

@[simp] theorem entries_blacken (t : Tree A K) : t.blacken.entries = t.entries := by
  cases t <;> rfl

theorem blacken_of_black (h : t.isRed = false) : t.blacken = t := by
  cases t with
  | nil => rfl
  | node c l a k r =>
    cases c with
    | red => simp [isRed] at h
    | black => rfl

/-- Turning a node and its far child around keeps the order. -/
theorem entries_rotate (d : Side) (c c' e e' : Color) (a b : A) (k k' : K) (x y z : Tree A K) :
    (branch d c' b k' (branch d c a k x y) z).entries =
      (branch d e a k x (branch d e' b k' y z)).entries := by
  cases d <;> simp [entries_branch]

/-- The order of a node's entries depends on that of its subtrees. -/
theorem entries_branch_congr {d : Side} (c c' : Color) (a : A) (k : K) {x x' y y' : Tree A K}
    (hx : x.entries = x'.entries) (hy : y.entries = y'.entries) :
    (branch d c a k x y).entries = (branch d c' a k x' y').entries := by
  cases d <;> simp [entries_branch, hx, hy]

theorem entries_recolor (d : Side) (c c' : Color) (a : A) (k : K) (x y : Tree A K) :
    (branch d c a k x y).entries = (branch d c' a k x y).entries := by
  cases d <;> rfl

/-! ### Balance -/

/-- No red node has a red child, and every way down to a missing child passes `n` black
nodes. -/
def Balanced : Tree A K → Nat → Prop
  | nil, n => n = 0
  | node .red l _ _ r, n => l.isRed = false ∧ r.isRed = false ∧ l.Balanced n ∧ r.Balanced n
  | node .black _ _ _ _, 0 => False
  | node .black l _ _ r, n + 1 => l.Balanced n ∧ r.Balanced n

section

variable {d : Side} {a : A} {k : K} {x y : Tree A K} {n : Nat}

@[simp] theorem balanced_nil : (nil : Tree A K).Balanced n ↔ n = 0 := Iff.rfl

@[simp] theorem balanced_red : (branch d .red a k x y).Balanced n ↔
    x.isRed = false ∧ y.isRed = false ∧ x.Balanced n ∧ y.Balanced n := by
  cases d with
  | left => exact Iff.rfl
  | right =>
    simp only [branch, Balanced]
    exact ⟨fun ⟨h₁, h₂, h₃, h₄⟩ => ⟨h₂, h₁, h₄, h₃⟩, fun ⟨h₁, h₂, h₃, h₄⟩ => ⟨h₂, h₁, h₄, h₃⟩⟩

@[simp] theorem balanced_black : (branch d .black a k x y).Balanced (n + 1) ↔
    x.Balanced n ∧ y.Balanced n := by
  cases d with
  | left => exact Iff.rfl
  | right => exact and_comm

@[simp] theorem not_balanced_black_zero : ¬(branch d .black a k x y).Balanced 0 := by
  cases d <;> exact id

end

/-- A tree that passes black nodes and whose root is not red has a black root. -/
theorem exists_black {n : Nat} (d : Side) (hblack : t.isRed = false) (h : t.Balanced (n + 1)) :
    ∃ a k x y, t = branch d .black a k x y ∧ x.Balanced n ∧ y.Balanced n := by
  cases t with
  | nil => simp at h
  | node c l a k r =>
    obtain ⟨x, y, heq⟩ := node_eq_branch d c l a k r
    rw [heq] at h hblack ⊢
    cases c with
    | red => simp at hblack
    | black => exact ⟨a, k, x, y, rfl, balanced_black.mp h⟩

/-- A tree with a red root. -/
theorem exists_red {n : Nat} (d : Side) (hred : t.isRed = true) (h : t.Balanced n) :
    ∃ a k x y, t = branch d .red a k x y ∧ x.isRed = false ∧ y.isRed = false ∧
      x.Balanced n ∧ y.Balanced n := by
  cases t with
  | nil => simp [isRed] at hred
  | node c l a k r =>
    obtain ⟨x, y, heq⟩ := node_eq_branch d c l a k r
    rw [heq] at h hred ⊢
    cases c with
    | red => exact ⟨a, k, x, y, rfl, balanced_red.mp h⟩
    | black => simp at hred

/-- A tree without black nodes is empty or a single red node. -/
theorem red_of_balanced_zero (h : t.Balanced 0) (hne : t ≠ nil) :
    t.isRed = true := by
  cases t with
  | nil => exact absurd rfl hne
  | node c l a k r =>
    cases c with
    | red => rfl
    | black => exact absurd h id

theorem balanced_blacken {n : Nat} (hred : t.isRed = true) (h : t.Balanced n) :
    t.blacken.Balanced (n + 1) := by
  obtain ⟨a, k, x, y, rfl, -, -, hx, hy⟩ := exists_red .left hred h
  rw [blacken_branch, balanced_black]
  exact ⟨hx, hy⟩

end Tree

/-! ### Paths -/

open RedBlack.Tree

/-- A node on the way up: the side the path comes from, and the subtree on the other. -/
structure Step (A K : Type) where
  side : Side
  color : Color
  addr : A
  key : K
  sibling : Tree A K

/-- The way up from a subtree, its parent first. -/
abbrev Path (A K : Type) := List (Step A K)

def Step.fill (f : Step A K) (t : Tree A K) : Tree A K :=
  branch f.side f.color f.addr f.key t f.sibling

namespace Path

/-- The tree with a subtree at the end of the path. -/
def plug : Path A K → Tree A K → Tree A K
  | [], t => t
  | f :: path, t => plug path (f.fill t)

@[simp] theorem plug_nil (t : Tree A K) : plug [] t = t := rfl

@[simp] theorem plug_cons (f : Step A K) (path : Path A K) (t : Tree A K) :
    plug (f :: path) t = plug path (branch f.side f.color f.addr f.key t f.sibling) := rfl

theorem plug_append (p q : Path A K) (t : Tree A K) : plug (p ++ q) t = plug q (plug p t) := by
  induction p generalizing t with
  | nil => rfl
  | cons f p ih => exact ih _

/-- The address of the parent. -/
def parent : Path A K → Option A
  | [] => none
  | f :: _ => some f.addr

@[simp] theorem parent_nil : parent ([] : Path A K) = none := rfl

@[simp] theorem parent_cons (f : Step A K) (path : Path A K) : parent (f :: path) = some f.addr := rfl

/-- The entries to the left of the path. -/
def before : Path A K → List (K × A)
  | [] => []
  | f :: path =>
    match f.side with
    | .left => before path
    | .right => before path ++ (f.sibling.entries ++ [(f.key, f.addr)])

/-- The entries to the right of the path. -/
def after : Path A K → List (K × A)
  | [] => []
  | f :: path =>
    match f.side with
    | .left => (f.key, f.addr) :: (f.sibling.entries ++ after path)
    | .right => after path

theorem entries_plug (path : Path A K) (t : Tree A K) :
    (plug path t).entries = before path ++ t.entries ++ after path := by
  induction path generalizing t with
  | nil => simp [plug, before, after]
  | cons f path ih =>
    rw [plug_cons, ih]
    cases hside : f.side <;> simp [before, after, hside, entries_branch]

variable {path : Path A K} {a : A}

/-- Nothing is to the left of a path that only comes from the left. -/
theorem before_eq_nil (h : ∀ f ∈ path, f.side = .left) : before path = [] := by
  induction path with
  | nil => rfl
  | cons f path ih =>
    rw [before, h f (List.mem_cons_self ..)]
    exact ih fun g hg => h g (List.mem_cons_of_mem _ hg)

/-- Every step of a path has an entry of its own. -/
theorem length_le_entries (path : Path A K) :
    path.length ≤ (before path).length + (after path).length := by
  induction path with
  | nil => simp
  | cons f path ih =>
    cases hside : f.side <;> simp [before, after, hside] <;> omega

theorem entries_plug_congr {t t' : Tree A K} (h : t.entries = t'.entries) :
    (plug path t).entries = (plug path t').entries := by
  rw [entries_plug, entries_plug, h]

/-- The addresses along the path and in the subtrees that hang off it. -/
def addrs (path : Path A K) : List A := (before path ++ after path).map Prod.snd

theorem mem_addrs_cons {f : Step A K} :
    a ∈ addrs (f :: path) ↔ a = f.addr ∨ a ∈ f.sibling.addrs ∨ a ∈ addrs path := by
  cases hside : f.side <;>
    simp only [addrs, before, after, hside, Tree.addrs, List.map_append, List.map_cons,
      List.map_nil, List.mem_append, List.mem_cons, List.not_mem_nil, or_false] <;> tauto

theorem mem_addrs_append {p q : Path A K} :
    a ∈ addrs (p ++ q) ↔ a ∈ addrs p ∨ a ∈ addrs q := by
  induction p with
  | nil => simp [addrs, before, after]
  | cons f p ih => rw [List.cons_append, mem_addrs_cons, ih, mem_addrs_cons, or_assoc, or_assoc]

theorem mem_addrs_plug {t : Tree A K} :
    a ∈ (plug path t).addrs ↔ a ∈ t.addrs ∨ a ∈ addrs path := by
  rw [Tree.addrs, entries_plug]
  simp only [addrs, Tree.addrs, List.map_append, List.mem_append]
  tauto

/-- A path that is not empty has the root on it. -/
theorem root_plug_mem (f : Step A K) (path : Path A K) (t : Tree A K) :
    ∃ a, (plug (f :: path) t).root = some a ∧ a ∈ addrs (f :: path) := by
  induction path generalizing f t with
  | nil => exact ⟨f.addr, root_branch, mem_addrs_cons.mpr (Or.inl rfl)⟩
  | cons g path ih =>
    obtain ⟨a, hroot, hmem⟩ := ih g (f.fill t)
    exact ⟨a, hroot, mem_addrs_cons.mpr (Or.inr (Or.inr hmem))⟩

/-- The addresses of a tree are distinct when those of the subtree and of the path are. -/
theorem nodup_plug (path : Path A K) (t : Tree A K) :
    (plug path t).addrs.Nodup ↔ (t.addrs ++ addrs path).Nodup := by
  refine List.Perm.nodup_iff ?_
  rw [Tree.addrs, entries_plug, addrs, Tree.addrs, ← List.map_append]
  refine List.Perm.map _ ?_
  rw [← List.append_assoc]
  exact List.Perm.append_right _ List.perm_append_comm

/-! ### Paths of balanced trees -/

/-- The subtree at the end must not be red: its parent is, or there is none. -/
def red : Path A K → Bool
  | [] => true
  | f :: _ => f.color == .red

@[simp] theorem red_nil : red ([] : Path A K) = true := rfl

@[simp] theorem red_cons (f : Step A K) (path : Path A K) : red (f :: path) = (f.color == .red) := rfl

/-- With a subtree of black height `n` at its end, nothing is wrong above it. -/
def Fits : Path A K → Nat → Prop
  | [], _ => True
  | f :: path, n =>
    f.sibling.Balanced n ∧
      match f.color with
      | .red => f.sibling.isRed = false ∧ red path = false ∧ Fits path n
      | .black => Fits path (n + 1)

/-- A tree is balanced, with a black root, when the subtree is and the path fits it. -/
theorem balanced_plug (path : Path A K) (t : Tree A K) :
    ((∃ m, (plug path t).Balanced m) ∧ (plug path t).isRed = false) ↔
      ∃ n, Fits path n ∧ t.Balanced n ∧ (red path = true → t.isRed = false) := by
  induction path generalizing t with
  | nil =>
    simp only [plug_nil, Fits, red_nil, true_and, forall_const]
    exact ⟨fun ⟨⟨m, h⟩, hred⟩ => ⟨m, h, hred⟩, fun ⟨m, h, hred⟩ => ⟨⟨m, h⟩, hred⟩⟩
  | cons f path ih =>
    rw [plug_cons, ih]
    cases hcolor : f.color with
    | red =>
      simp only [Fits, red_cons, hcolor, balanced_red, isRed_branch, beq_self_eq_true]
      constructor
      · rintro ⟨n, hfits, ⟨ht, hs, hbt, hbs⟩, hred⟩
        refine ⟨n, ⟨hbs, hs, ?_, hfits⟩, hbt, fun _ => ht⟩
        cases hpath : red path with
        | true => exact absurd (hred hpath) (by simp)
        | false => rfl
      · rintro ⟨n, ⟨hbs, hs, hpath, hfits⟩, hbt, hred⟩
        exact ⟨n, hfits, ⟨hred trivial, hs, hbt, hbs⟩, by simp [hpath]⟩
    | black =>
      simp only [Fits, red_cons, hcolor, isRed_branch]
      constructor
      · rintro ⟨n, hfits, hb, -⟩
        cases n with
        | zero => exact absurd hb not_balanced_black_zero
        | succ n =>
          obtain ⟨hbt, hbs⟩ := balanced_black.mp hb
          exact ⟨n, ⟨hbs, hfits⟩, hbt, by simp⟩
      · rintro ⟨n, ⟨hbs, hfits⟩, hbt, -⟩
        exact ⟨n + 1, hfits, balanced_black.mpr ⟨hbt, hbs⟩, by simp⟩

/-- Whether a path fits has nothing to do with the keys on it. -/
theorem fits_rename {p q : Path A K} {d : Side} {c : Color} {b : A} {k k' : K}
    {sibling : Tree A K} {n : Nat} :
    Fits (p ++ ⟨d, c, a, k, sibling⟩ :: q) n → Fits (p ++ ⟨d, c, b, k', sibling⟩ :: q) n := by
  induction p generalizing n with
  | nil => exact id
  | cons f p ih =>
    have hred : red (p ++ (⟨d, c, a, k, sibling⟩ : Step A K) :: q) =
        red (p ++ ⟨d, c, b, k', sibling⟩ :: q) := by
      cases p <;> rfl
    rintro ⟨hs, h⟩
    refine ⟨hs, ?_⟩
    cases hcolor : f.color with
    | red =>
      simp only [hcolor] at h ⊢
      exact ⟨h.1, hred ▸ h.2.1, ih h.2.2⟩
    | black =>
      simp only [hcolor] at h ⊢
      exact ih h

end Path

end RedBlack
end IowarpCore
