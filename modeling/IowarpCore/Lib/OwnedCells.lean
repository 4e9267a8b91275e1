/-
Objects that own the heap cells they point to.

Each object stands for an abstract value, and which one depends only on the object and
on the cells it owns.  A step of one object may change and free the cells it owns and
take free ones; it leaves every other live cell alone.  Such a step is invisible to the
objects beside it, so what one object does to its own value is proved with that object
alone and lifted to the whole pool by `Pool.step`.
-/
import Mathlib.Logic.Function.Basic

namespace IowarpCore

/-- What it means for an object to own cells and to stand for a value. -/
structure CellOwner (Addr Cell Obj Abs : Type) where
  /-- The object holds the only pointer to the cell. -/
  owns : Obj → Addr → Prop
  /-- With this heap the object stands for this value. -/
  stands : (Addr → Option Cell) → Obj → Abs → Prop
  /-- An owned cell is live. -/
  live : ∀ {h o a x}, stands h o a → owns o x → h x ≠ none
  /-- Only the owned cells matter to the value. -/
  local_ : ∀ {h h' o a}, stands h o a → (∀ x, owns o x → h' x = h x) → stands h' o a

namespace CellOwner

variable {Addr Cell Obj Abs ι : Type} (W : CellOwner Addr Cell Obj Abs)
variable {h h' h'' : Addr → Option Cell} {o o' o'' : Obj}

/-- From `o` to `o'` the heap changes only in cells that `o` owns and in free cells, and
no cell of another object is taken. -/
def Frame (h : Addr → Option Cell) (o : Obj) (h' : Addr → Option Cell) (o' : Obj) : Prop :=
  ∀ x, h x ≠ none → ¬ W.owns o x → h' x = h x ∧ ¬ W.owns o' x

variable {W}

theorem Frame.trans (hfirst : W.Frame h o h' o') (hsecond : W.Frame h' o' h'' o'') :
    W.Frame h o h'' o'' := by
  intro x hx hfree
  obtain ⟨heq, hfree'⟩ := hfirst x hx hfree
  obtain ⟨heq', hfree''⟩ := hsecond x (by rw [heq]; exact hx) hfree'
  exact ⟨heq'.trans heq, hfree''⟩

/-- A step that leaves the heap and takes no cell. -/
theorem Frame.of_owns (hsub : ∀ x, W.owns o' x → W.owns o x) : W.Frame h o h o' := by
  intro x _ hfree
  exact ⟨rfl, fun hown => hfree (hsub x hown)⟩

/-- An object that owns none of the cells that changed stands for what it did. -/
theorem Frame.stands_beside {t : Obj} {b : Abs} (ht : W.stands h t b) (hstep : W.Frame h o h' o')
    (hapart : ∀ x, W.owns t x → ¬ W.owns o x) : W.stands h' t b :=
  W.local_ ht fun x hx => (hstep x (W.live ht hx) (hapart x hx)).1

/-- A step with a temporary at its side: `t` is made from nothing, `o` takes its step, and
`t` is destroyed. -/
theorem Frame.with_temporary {h₁ h₂ : Addr → Option Cell} {e e' t : Obj} {a b : Abs}
    (he : ∀ x, ¬ W.owns e x) (ho : W.stands h o a) (ht : W.stands h₁ t b)
    (hmake : W.Frame h e h₁ t) (hstep : W.Frame h₁ o h₂ o') (hdrop : W.Frame h₂ t h' e') :
    W.Frame h o h' o' ∧ ∀ {c}, W.stands h₂ o' c → W.stands h' o' c := by
  -- the temporary has none of the object's cells, before and after the step
  have hbefore : ∀ x, W.owns t x → ¬ W.owns o x := by
    intro x hx hox
    exact (hmake x (W.live ho hox) (he x)).2 hx
  have hafter : ∀ x, W.owns t x → ¬ W.owns o' x := fun x hx =>
    (hstep x (W.live ht hx) (hbefore x hx)).2
  constructor
  · intro x hx hfree
    obtain ⟨heq₁, hnot⟩ := hmake x hx (he x)
    obtain ⟨heq₂, hnot'⟩ := hstep x (by rw [heq₁]; exact hx) hfree
    obtain ⟨heq₃, -⟩ := hdrop x (by rw [heq₂, heq₁]; exact hx) hnot
    exact ⟨heq₃.trans (heq₂.trans heq₁), hnot'⟩
  · intro c hc
    exact hdrop.stands_beside hc fun x hx htx => hafter x htx hx

/-- An object makes room for another: `t` is made from nothing and `o` is destroyed. -/
theorem Frame.replace {h₁ : Addr → Option Cell} {e e' t : Obj} {a b : Abs}
    (he : ∀ x, ¬ W.owns e x) (ho : W.stands h o a) (ht : W.stands h₁ t b)
    (hmake : W.Frame h e h₁ t) (hdrop : W.Frame h₁ o h' e') :
    W.Frame h o h' t ∧ W.stands h' t b := by
  constructor
  · intro x hx hfree
    obtain ⟨heq₁, hnot⟩ := hmake x hx (he x)
    obtain ⟨heq₂, -⟩ := hdrop x (by rw [heq₁]; exact hx) hfree
    exact ⟨heq₂.trans heq₁, hnot⟩
  · refine hdrop.stands_beside ht fun x hx hox => ?_
    exact (hmake x (W.live ho hox) (he x)).2 hx

section Update

variable [DecidableEq Addr]

/-- A step that writes one cell, its own or a free one, and owns no other afterwards. -/
theorem Frame.of_write {p : Addr} {c : Option Cell} (hp : h p = none ∨ W.owns o p)
    (hown : ∀ x, W.owns o' x → x = p) : W.Frame h o (Function.update h p c) o' := by
  intro x hx hfree
  have hne : x ≠ p := by
    rintro rfl
    cases hp with
    | inl hnone => exact hx hnone
    | inr howns => exact hfree howns
  exact ⟨Function.update_of_ne hne _ _, fun hown' => hne (hown x hown')⟩

/-- A step that frees or writes one cell of its own and takes none. -/
theorem Frame.of_free {p : Addr} {c : Option Cell} (hp : W.owns o p)
    (hown : ∀ x, ¬ W.owns o' x) : W.Frame h o (Function.update h p c) o' :=
  Frame.of_write (.inr hp) fun x hx => absurd hx (hown x)

end Update

/-! ### Pools -/

/-- Every object of the pool stands for its value, and no cell has two owners. -/
structure Pool (W : CellOwner Addr Cell Obj Abs) (h : Addr → Option Cell) (objs : ι → Obj)
    (vals : ι → Abs) : Prop where
  stands : ∀ i, W.stands h (objs i) (vals i)
  apart : ∀ i j x, W.owns (objs i) x → W.owns (objs j) x → i = j

namespace Pool

variable [DecidableEq ι] {objs : ι → Obj} {vals : ι → Abs} {v v' : Abs}

/-- One object takes a step of its own. -/
theorem step (hpool : W.Pool h objs vals) {i : ι} (hstands : W.stands h' o' v)
    (hframe : W.Frame h (objs i) h' o') :
    W.Pool h' (Function.update objs i o') (Function.update vals i v) := by
  -- the cells of the others are live and not the stepping object's
  have hother : ∀ j x, j ≠ i → W.owns (objs j) x → h' x = h x ∧ ¬ W.owns o' x := by
    intro j x hj hown
    exact hframe x (W.live (hpool.stands j) hown) fun howni => hj (hpool.apart j i x hown howni)
  constructor
  · intro j
    by_cases hj : j = i
    · subst hj
      rw [Function.update_self, Function.update_self]
      exact hstands
    · rw [Function.update_of_ne hj, Function.update_of_ne hj]
      exact W.local_ (hpool.stands j) fun x hown => (hother j x hj hown).1
  · intro j k x hjx hkx
    by_cases hj : j = i <;> by_cases hk : k = i
    · rw [hj, hk]
    · rw [hj, Function.update_self] at hjx
      rw [Function.update_of_ne hk] at hkx
      exact absurd hjx (hother k x hk hkx).2
    · rw [hk, Function.update_self] at hkx
      rw [Function.update_of_ne hj] at hjx
      exact absurd hkx (hother j x hj hjx).2
    · rw [Function.update_of_ne hj] at hjx
      rw [Function.update_of_ne hk] at hkx
      exact hpool.apart j k x hjx hkx

/-- Two objects share out the cells they own between them; the heap stays. -/
theorem exchange (hpool : W.Pool h objs vals) {i j : ι} (ho : W.stands h o v)
    (ho' : W.stands h o' v') (hown : ∀ x, W.owns o x → W.owns (objs i) x ∨ W.owns (objs j) x)
    (hown' : ∀ x, W.owns o' x → W.owns (objs i) x ∨ W.owns (objs j) x)
    (hapart : ∀ x, W.owns o x → ¬ W.owns o' x) :
    W.Pool h (Function.update (Function.update objs i o) j o')
      (Function.update (Function.update vals i v) j v') := by
  -- a cell of a third object is none of theirs
  have hthird : ∀ k x, k ≠ i → k ≠ j → W.owns (objs k) x → ¬ W.owns o x ∧ ¬ W.owns o' x := by
    intro k x hki hkj hk
    have hnone : ¬ (W.owns (objs i) x ∨ W.owns (objs j) x) := by
      rintro (hi | hj)
      · exact hki (hpool.apart k i x hk hi)
      · exact hkj (hpool.apart k j x hk hj)
    exact ⟨fun hx => hnone (hown x hx), fun hx => hnone (hown' x hx)⟩
  have hvalue : ∀ k, (k = j ∧ Function.update (Function.update objs i o) j o' k = o') ∨
      (k ≠ j ∧ k = i ∧ Function.update (Function.update objs i o) j o' k = o) ∨
      (k ≠ j ∧ k ≠ i ∧ Function.update (Function.update objs i o) j o' k = objs k) := by
    intro k
    by_cases hkj : k = j
    · exact .inl ⟨hkj, by rw [hkj, Function.update_self]⟩
    · by_cases hki : k = i
      · exact .inr (.inl ⟨hkj, hki, by rw [Function.update_of_ne hkj, hki, Function.update_self]⟩)
      · exact .inr (.inr ⟨hkj, hki, by rw [Function.update_of_ne hkj, Function.update_of_ne hki]⟩)
  constructor
  · intro k
    by_cases hkj : k = j
    · subst hkj
      rw [Function.update_self, Function.update_self]
      exact ho'
    · rw [Function.update_of_ne hkj, Function.update_of_ne hkj]
      by_cases hki : k = i
      · subst hki
        rw [Function.update_self, Function.update_self]
        exact ho
      · rw [Function.update_of_ne hki, Function.update_of_ne hki]
        exact hpool.stands k
  · intro k m x hk hm
    obtain ⟨hkj, hkv⟩ | ⟨hkj, hki, hkv⟩ | ⟨hkj, hki, hkv⟩ := hvalue k <;>
      obtain ⟨hmj, hmv⟩ | ⟨hmj, hmi, hmv⟩ | ⟨hmj, hmi, hmv⟩ := hvalue m <;>
      rw [hkv] at hk <;> rw [hmv] at hm
    · rw [hkj, hmj]
    · exact absurd hk (hapart x hm)
    · exact absurd hk (hthird m x hmi hmj hm).2
    · exact absurd hm (hapart x hk)
    · rw [hki, hmi]
    · exact absurd hk (hthird m x hmi hmj hm).1
    · exact absurd hm (hthird k x hki hkj hk).2
    · exact absurd hm (hthird k x hki hkj hk).1
    · exact hpool.apart k m x hk hm

end Pool

end CellOwner

end IowarpCore
