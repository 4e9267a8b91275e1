/-
Finite maps with an iteration order.

A map is a list of entries no two of which share a key.  Assigning to a key that is
there replaces its value in place, a new key goes to the end, and `entries` is the
order in which a traversal visits the map.

What a map says is which pairs it holds, so every operation is characterised by
membership first (`mem_insertOrAssign`, `mem_erase`) and by lookup second.  For
anything summed or collected over all entries there is one more fact: up to order,
a map is the entry of a key in front of the map without that key
(`entries_perm_of_find`, `insertOrAssign_perm`), which is what makes the effect of
an update on such a total local.
-/
import Mathlib.Data.List.Nodup
import Mathlib.Data.List.Perm.Basic

namespace IowarpCore

/-- A list of entries with distinct keys. -/
structure AMap (K V : Type) where
  entries : List (K × V)
  nodup : (entries.map Prod.fst).Nodup

namespace AMap

variable {K V : Type}

def empty : AMap K V := ⟨[], List.nodup_nil⟩

instance : Inhabited (AMap K V) := ⟨empty⟩

variable {m m' : AMap K V} {k k' : K} {v : V}

theorem ext_entries (h : m.entries = m'.entries) : m = m' := by
  cases m
  cases m'
  simp only at h
  subst h
  rfl

/-- At most one value is held under a key. -/
theorem mem_unique (m : AMap K V) {v' : V} (h : (k, v) ∈ m.entries)
    (h' : (k, v') ∈ m.entries) : v = v' :=
  congrArg Prod.snd (List.inj_on_of_nodup_map m.nodup h h' rfl)

theorem entries_nodup (m : AMap K V) : m.entries.Nodup := m.nodup.of_map

/-- The map with the value of every entry changed by `f`. -/
def mapVal (m : AMap K V) (f : K → V → V) : AMap K V :=
  ⟨m.entries.map fun e => (e.1, f e.1 e.2), by
    rw [List.map_map]
    exact m.nodup⟩

theorem mem_mapVal {f : K → V → V} :
    (k, v) ∈ (m.mapVal f).entries ↔ ∃ u, (k, u) ∈ m.entries ∧ f k u = v := by
  simp only [mapVal, List.mem_map, Prod.mk.injEq, Prod.exists]
  refine ⟨?_, ?_⟩
  · rintro ⟨k', u, hmem, hk, hv⟩
    subst hk
    exact ⟨u, hmem, hv⟩
  · rintro ⟨u, hmem, hv⟩
    exact ⟨k, u, hmem, rfl, hv⟩

/-- The entries that satisfy `p`. -/
def filter (m : AMap K V) (p : K → V → Bool) : AMap K V :=
  ⟨m.entries.filter fun e => p e.1 e.2,
    m.nodup.sublist ((List.filter_sublist).map Prod.fst)⟩

theorem mem_filter {p : K → V → Bool} :
    (k, v) ∈ (m.filter p).entries ↔ (k, v) ∈ m.entries ∧ p k v = true := by
  simp [filter]

variable [DecidableEq K]

def find? (m : AMap K V) (k : K) : Option V :=
  (m.entries.find? fun e => e.1 = k).map Prod.snd

def contains (m : AMap K V) (k : K) : Bool := (m.find? k).isSome

@[simp] theorem find?_empty (k : K) : (empty : AMap K V).find? k = none := rfl

theorem find?_eq_some_iff :
    m.find? k = some v ↔ (k, v) ∈ m.entries := by
  refine ⟨?_, ?_⟩
  · intro h
    obtain ⟨⟨k', v'⟩, hfind, hv⟩ := Option.map_eq_some_iff.mp h
    have hk : k' = k := by simpa using List.find?_some hfind
    have hmem := List.mem_of_find?_eq_some hfind
    simp only at hv
    rwa [hk, hv] at hmem
  · intro h
    rcases hfind : m.entries.find? (fun e => e.1 = k) with _ | ⟨k', v'⟩
    · have hnone := List.find?_eq_none.mp hfind (k, v) h
      simp at hnone
    · have hk : k' = k := by simpa using List.find?_some hfind
      have hmem := List.mem_of_find?_eq_some hfind
      rw [hk] at hmem
      simp [find?, hfind, m.mem_unique hmem h]

theorem find?_eq_none_iff :
    m.find? k = none ↔ ∀ v, (k, v) ∉ m.entries := by
  refine ⟨?_, ?_⟩
  · intro h v hv
    rw [find?_eq_some_iff.mpr hv] at h
    simp at h
  · intro h
    rcases hfind : m.find? k with _ | v
    · rfl
    · exact absurd (find?_eq_some_iff.mp hfind) (h v)

theorem contains_iff :
    m.contains k = true ↔ ∃ v, (k, v) ∈ m.entries := by
  simp only [contains, Option.isSome_iff_exists, find?_eq_some_iff]

/-- Two maps holding the same pairs agree on every key. -/
theorem find?_congr
    (h : ∀ v, (k, v) ∈ m.entries ↔ (k, v) ∈ m'.entries) : m.find? k = m'.find? k := by
  apply Option.ext
  intro v
  rw [find?_eq_some_iff, find?_eq_some_iff, h v]

theorem find?_mapVal (m : AMap K V) (f : K → V → V) (k : K) :
    (m.mapVal f).find? k = (m.find? k).map (f k) := by
  rcases hfind : m.find? k with _ | v
  · rw [find?_eq_none_iff] at hfind
    rw [Option.map_none, find?_eq_none_iff]
    intro v hv
    obtain ⟨u, hu, _⟩ := mem_mapVal.mp hv
    exact hfind u hu
  · rw [find?_eq_some_iff] at hfind
    rw [Option.map_some, find?_eq_some_iff, mem_mapVal]
    exact ⟨v, hfind, rfl⟩

/-! ### Removing a key -/

def erase (m : AMap K V) (k : K) : AMap K V := m.filter fun k' _ => k' ≠ k

theorem mem_erase :
    (k', v) ∈ (m.erase k).entries ↔ k' ≠ k ∧ (k', v) ∈ m.entries := by
  rw [erase, mem_filter]
  simp [And.comm]

@[simp] theorem find?_erase_self (m : AMap K V) (k : K) : (m.erase k).find? k = none := by
  rw [find?_eq_none_iff]
  intro v hv
  exact (mem_erase.mp hv).1 rfl

theorem find?_erase_of_ne (m : AMap K V) (h : k' ≠ k) :
    (m.erase k).find? k' = m.find? k' := by
  refine find?_congr fun v => ?_
  rw [mem_erase]
  simp [h]

theorem find?_erase (m : AMap K V) (k k' : K) :
    (m.erase k).find? k' = if k' = k then none else m.find? k' := by
  by_cases h : k' = k
  · rw [if_pos h, h, find?_erase_self]
  · rw [if_neg h, find?_erase_of_ne m h]

/-! ### Assigning to a key -/

private theorem nodup_replace (l : List (K × V)) (k : K) (v : V) (h : (l.map Prod.fst).Nodup) :
    ((l.map fun e => if e.1 = k then (k, v) else e).map Prod.fst).Nodup := by
  have hkeys : (l.map fun e => if e.1 = k then (k, v) else e).map Prod.fst = l.map Prod.fst := by
    rw [List.map_map]
    refine List.map_congr_left fun e _ => ?_
    by_cases he : e.1 = k
    · simp [he]
    · simp [he]
  rw [hkeys]
  exact h

private theorem nodup_append (m : AMap K V) (v : V) (h : ¬m.contains k = true) :
    ((m.entries ++ [(k, v)]).map Prod.fst).Nodup := by
  rw [List.map_append, List.nodup_append]
  refine ⟨m.nodup, by simp, ?_⟩
  intro a ha b hb hab
  obtain ⟨⟨k', v'⟩, hmem, hk'⟩ := List.mem_map.mp ha
  have hbk : b = k := by simpa using hb
  apply h
  rw [contains_iff]
  exact ⟨v', by rw [← hbk, ← hab, ← hk']; exact hmem⟩

/-- Replace the value in place, or append a new entry. -/
def insertOrAssign (m : AMap K V) (k : K) (v : V) : AMap K V :=
  if h : m.contains k = true then
    ⟨m.entries.map fun e => if e.1 = k then (k, v) else e, nodup_replace _ k v m.nodup⟩
  else ⟨m.entries ++ [(k, v)], nodup_append m v h⟩

theorem mem_insertOrAssign {v' : V} :
    (k', v') ∈ (m.insertOrAssign k v).entries ↔
      (k' = k ∧ v' = v) ∨ (k' ≠ k ∧ (k', v') ∈ m.entries) := by
  unfold insertOrAssign
  by_cases h : m.contains k = true
  · rw [dif_pos h]
    simp only [List.mem_map]
    refine ⟨?_, ?_⟩
    · rintro ⟨⟨ke, ve⟩, hmem, heq⟩
      by_cases hk : ke = k
      · simp only [hk, if_true, Prod.mk.injEq] at heq
        exact Or.inl ⟨heq.1.symm, heq.2.symm⟩
      · simp only [hk, if_false, Prod.mk.injEq] at heq
        rw [heq.1, heq.2] at hmem
        exact Or.inr ⟨by rw [← heq.1]; exact hk, hmem⟩
    · intro hcases
      rcases hcases with ⟨hk, hv⟩ | ⟨hk, hmem⟩
      · obtain ⟨u, hu⟩ := contains_iff.mp h
        exact ⟨(k, u), hu, by simp [hk, hv]⟩
      · exact ⟨(k', v'), hmem, by simp [hk]⟩
  · rw [dif_neg h]
    have hnot : ∀ u, (k, u) ∉ m.entries := fun u hu => h (contains_iff.mpr ⟨u, hu⟩)
    simp only [List.mem_append, List.mem_singleton, Prod.mk.injEq]
    refine ⟨?_, ?_⟩
    · intro hcases
      rcases hcases with hmem | hnew
      · exact Or.inr ⟨fun hk => hnot v' (by rw [← hk]; exact hmem), hmem⟩
      · exact Or.inl hnew
    · intro hcases
      rcases hcases with hnew | ⟨_, hmem⟩
      · exact Or.inr hnew
      · exact Or.inl hmem

@[simp] theorem find?_insertOrAssign_self (m : AMap K V) (k : K) (v : V) :
    (m.insertOrAssign k v).find? k = some v := by
  rw [find?_eq_some_iff, mem_insertOrAssign]
  exact Or.inl ⟨rfl, rfl⟩

theorem find?_insertOrAssign_of_ne (m : AMap K V) (v : V) (h : k' ≠ k) :
    (m.insertOrAssign k v).find? k' = m.find? k' := by
  refine find?_congr fun u => ?_
  rw [mem_insertOrAssign]
  simp [h]

theorem find?_insertOrAssign (m : AMap K V) (k k' : K) (v : V) :
    (m.insertOrAssign k v).find? k' = if k' = k then some v else m.find? k' := by
  by_cases h : k' = k
  · rw [if_pos h, h, find?_insertOrAssign_self]
  · rw [if_neg h, find?_insertOrAssign_of_ne m v h]

/-- What does not tell the new value from the old one reads the same of every key. -/
theorem congr_find?_insertOrAssign {β : Type} {v' : V} (g : Option V → β) (hfind : m.find? k = some v)
    (hg : g (some v') = g (some v)) (k' : K) :
    g ((m.insertOrAssign k v').find? k') = g (m.find? k') := by
  rw [find?_insertOrAssign]
  by_cases h : k' = k
  · rw [if_pos h, h, hfind, hg]
  · rw [if_neg h]

/-- Assigning what is there changes nothing. -/
theorem insertOrAssign_of_find (h : m.find? k = some v) :
    m.insertOrAssign k v = m := by
  have hmem := find?_eq_some_iff.mp h
  have hcontains : m.contains k = true := contains_iff.mpr ⟨v, hmem⟩
  apply ext_entries
  rw [insertOrAssign, dif_pos hcontains]
  show (m.entries.map fun e => if e.1 = k then (k, v) else e) = m.entries
  have hid : ∀ e ∈ m.entries, (if e.1 = k then (k, v) else e) = e := by
    rintro ⟨k', v'⟩ hmem'
    by_cases hk : k' = k
    · subst hk
      simp [m.mem_unique hmem hmem']
    · simp [hk]
  rw [List.map_congr_left hid, List.map_id']

/-! ### Assigning to many keys -/

theorem find?_assignAll_of_ne {α : Type} (key : α → K) (val : α → V) (l : List α) :
    ∀ m : AMap K V, (∀ a ∈ l, key a ≠ k) →
      (l.foldl (fun m a => m.insertOrAssign (key a) (val a)) m).find? k = m.find? k := by
  induction l with
  | nil => intro m _; rfl
  | cons b rest ih =>
    intro m h
    rw [List.foldl_cons, ih _ fun a ha => h a (List.mem_cons_of_mem _ ha),
      find?_insertOrAssign_of_ne _ _ (h b (by simp)).symm]

/-- A key to which only one value is assigned, however often, has that value. -/
theorem find?_assignAll {α : Type} (key : α → K) (val : α → V) (l : List α)
    (hex : ∃ a ∈ l, key a = k) (hval : ∀ a ∈ l, key a = k → val a = v) (m : AMap K V) :
    (l.foldl (fun m a => m.insertOrAssign (key a) (val a)) m).find? k = some v := by
  induction l generalizing m with
  | nil =>
    obtain ⟨a, ha, _⟩ := hex
    simp at ha
  | cons b rest ih =>
    rw [List.foldl_cons]
    by_cases hrest : ∃ a ∈ rest, key a = k
    · exact ih hrest (fun a ha => hval a (List.mem_cons_of_mem _ ha)) _
    · obtain ⟨a, ha, hkey⟩ := hex
      have hab : a = b := by
        rcases List.mem_cons.mp ha with h | h
        · exact h
        · exact absurd ⟨a, h, hkey⟩ hrest
      subst hab
      rw [find?_assignAll_of_ne key val rest _ fun b hb hkey' => hrest ⟨b, hb, hkey'⟩, hkey,
        hval a ha hkey]
      exact find?_insertOrAssign_self _ _ _

/-! ### A map is one entry in front of the rest -/

theorem entries_perm_of_find (h : m.find? k = some v) :
    m.entries.Perm ((k, v) :: (m.erase k).entries) := by
  have hmem := find?_eq_some_iff.mp h
  have hfresh : (k, v) ∉ (m.erase k).entries := fun hc => (mem_erase.mp hc).1 rfl
  rw [List.perm_ext_iff_of_nodup m.entries_nodup
    (List.nodup_cons.mpr ⟨hfresh, (m.erase k).entries_nodup⟩)]
  rintro ⟨k', v'⟩
  rw [List.mem_cons, Prod.mk.injEq, mem_erase]
  refine ⟨?_, ?_⟩
  · intro hmem'
    by_cases hk : k' = k
    · rw [hk] at hmem'
      exact Or.inl ⟨hk, m.mem_unique hmem' hmem⟩
    · exact Or.inr ⟨hk, hmem'⟩
  · intro hcases
    rcases hcases with ⟨hk, hv⟩ | ⟨_, hmem'⟩
    · rw [hk, hv]
      exact hmem
    · exact hmem'

theorem erase_insertOrAssign_entries_perm (m : AMap K V) (k : K) (v : V) :
    ((m.insertOrAssign k v).erase k).entries.Perm (m.erase k).entries := by
  rw [List.perm_ext_iff_of_nodup (entries_nodup _) (entries_nodup _)]
  rintro ⟨k', v'⟩
  rw [mem_erase, mem_erase, mem_insertOrAssign]
  by_cases hk : k' = k <;> simp [hk]

theorem insertOrAssign_perm (m : AMap K V) (k : K) (v : V) :
    (m.insertOrAssign k v).entries.Perm ((k, v) :: (m.erase k).entries) :=
  (entries_perm_of_find (find?_insertOrAssign_self m k v)).trans
    ((erase_insertOrAssign_entries_perm m k v).cons _)

/-- A map that differs from another in what one key is assigned. -/
def Assigned (m : AMap K V) (k : K) (v : V) (m' : AMap K V) : Prop :=
  ∀ k' v', (k', v') ∈ m'.entries ↔ (k' = k ∧ v' = v) ∨ (k' ≠ k ∧ (k', v') ∈ m.entries)

theorem assigned_insertOrAssign (m : AMap K V) (k : K) (v : V) :
    Assigned m k v (m.insertOrAssign k v) := fun _ _ => mem_insertOrAssign

theorem Assigned.perm (h : Assigned m k v m') :
    m'.entries.Perm ((k, v) :: (m.erase k).entries) := by
  have hfresh : (k, v) ∉ (m.erase k).entries := fun hc => (mem_erase.mp hc).1 rfl
  rw [List.perm_ext_iff_of_nodup m'.entries_nodup
    (List.nodup_cons.mpr ⟨hfresh, (m.erase k).entries_nodup⟩)]
  rintro ⟨k', v'⟩
  rw [h, List.mem_cons, Prod.mk.injEq, mem_erase]

/-- What a removed key was assigned before does not matter. -/
theorem erase_insertOrAssign (m : AMap K V) (k : K) (v : V) :
    (m.insertOrAssign k v).erase k = m.erase k := by
  apply ext_entries
  unfold insertOrAssign
  by_cases h : m.contains k = true
  · rw [dif_pos h]
    show (m.entries.map fun e => if e.1 = k then (k, v) else e).filter _ = m.entries.filter _
    generalize m.entries = l
    induction l with
    | nil => rfl
    | cons e l ih =>
      by_cases he : e.1 = k
      · simpa [List.filter_cons, he] using ih
      · simpa [List.filter_cons, he] using ih
  · rw [dif_neg h]
    show (m.entries ++ [(k, v)]).filter _ = m.entries.filter _
    simp

/-- Removing a key that is not there changes nothing. -/
theorem erase_entries_of_find_none (h : m.find? k = none) :
    (m.erase k).entries = m.entries := by
  rw [erase, filter, List.filter_eq_self]
  rintro ⟨k', v'⟩ hmem
  have hne : k' ≠ k := by
    intro hk
    rw [hk] at hmem
    exact find?_eq_none_iff.mp h v' hmem
  simpa using hne

end AMap

end IowarpCore
