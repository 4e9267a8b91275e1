/-
Entries whose keys are compared by an equality of their own.

A hash map finds a key by the equality of its key type.  That is symmetric and transitive, but
a key need not be equal to itself, as a NaN is not: such a key is never found, and each
assignment to it makes a new entry.  `assign` puts a new entry at the end; where a map puts it
in its order of iteration is of no matter to what is said here, which is up to order.
-/
import Mathlib.Data.List.Perm.Basic

namespace IowarpCore

/-- The equality of a key type. -/
structure KeyEq (K : Type) where
  eq : K → K → Bool
  symm : ∀ a b, eq a b = true → eq b a = true
  trans : ∀ a b c, eq a b = true → eq b c = true → eq a c = true

namespace KeyEq

variable {K V : Type}

/-- Equality of the representations. -/
def ofDecidableEq [DecidableEq K] : KeyEq K where
  eq a b := decide (a = b)
  symm a b h := by simpa [eq_comm] using h
  trans a b c hab hbc := by
    rw [decide_eq_true_eq] at *
    exact hab.trans hbc

variable (E : KeyEq K)

/-- `m[k] = x`. -/
def assign (k : K) (x : V) : List (K × V) → List (K × V)
  | [] => [(k, x)]
  | e :: l => if E.eq e.1 k then (e.1, x) :: l else e :: assign k x l

/-- The entries of `v` are assigned in their order. -/
def assignAll (old v : List (K × V)) : List (K × V) :=
  v.foldl (fun l e => E.assign e.1 e.2 l) old

/-- No two entries have equal keys. -/
def Distinct (l : List (K × V)) : Prop :=
  l.Pairwise fun a b => E.eq a.1 b.1 = false

variable {E} {k : K} {x : V} {e : K × V} {l l₁ l₂ old v : List (K × V)}

theorem eq_comm_false {a b : K} (h : E.eq a b = false) : E.eq b a = false := by
  rw [Bool.eq_false_iff] at h ⊢
  exact fun hba => h (E.symm b a hba)

/-! ### One assignment -/

/-- An assignment replaces the value of an entry with an equal key, or adds an entry. -/
theorem assign_cases (E : KeyEq K) (k : K) (x : V) (l : List (K × V)) :
    (∃ l₁ o l₂, l = l₁ ++ o :: l₂ ∧ E.eq o.1 k = true ∧ E.assign k x l = l₁ ++ (o.1, x) :: l₂) ∨
      ((∀ o ∈ l, E.eq o.1 k = false) ∧ E.assign k x l = l ++ [(k, x)]) := by
  induction l with
  | nil => exact Or.inr ⟨fun o ho => absurd ho List.not_mem_nil, rfl⟩
  | cons d l ih =>
    unfold assign
    by_cases hd : E.eq d.1 k = true
    · rw [if_pos hd]
      exact Or.inl ⟨[], d, l, rfl, hd, rfl⟩
    · rw [if_neg hd]
      rcases ih with ⟨l₁, o, l₂, rfl, ho, hassign⟩ | ⟨hnew, hassign⟩
      · exact Or.inl ⟨d :: l₁, o, l₂, rfl, ho, by rw [hassign, List.cons_append]⟩
      · refine Or.inr ⟨fun o ho => ?_, by rw [hassign, List.cons_append]⟩
        rcases List.mem_cons.mp ho with rfl | ho
        · exact Bool.eq_false_iff.mpr hd
        · exact hnew o ho

/-- An entry whose key is another stands aside. -/
theorem assign_aside (l₁ l₂ : List (K × V)) (h : E.eq e.1 k = false) :
    ∃ l₁' l₂', E.assign k x (l₁ ++ e :: l₂) = l₁' ++ e :: l₂' ∧ E.assign k x (l₁ ++ l₂) = l₁' ++ l₂' := by
  induction l₁ with
  | nil =>
    refine ⟨[], E.assign k x l₂, ?_, rfl⟩
    rw [List.nil_append, assign, if_neg (by rw [h]; decide), List.nil_append]
  | cons d l₁ ih =>
    rw [List.cons_append, List.cons_append, assign, assign]
    by_cases hd : E.eq d.1 k = true
    · rw [if_pos hd, if_pos hd]
      exact ⟨(d.1, x) :: l₁, l₂, rfl, rfl⟩
    · rw [if_neg hd, if_neg hd]
      obtain ⟨l₁', l₂', hwith, hwithout⟩ := ih
      exact ⟨d :: l₁', l₂', by rw [hwith, List.cons_append], by rw [hwithout, List.cons_append]⟩

/-- The keys that are there stay. -/
theorem key_mem_assign (k : K) (x : V) (h : e ∈ l) : ∃ y, (e.1, y) ∈ E.assign k x l := by
  rcases E.assign_cases k x l with ⟨l₁, o, l₂, rfl, -, hassign⟩ | ⟨-, hassign⟩
  · rw [hassign]
    rcases List.mem_append.mp h with hmem | hmem
    · exact ⟨e.2, List.mem_append_left _ hmem⟩
    · rcases List.mem_cons.mp hmem with rfl | hmem
      · exact ⟨x, List.mem_append_right _ List.mem_cons_self⟩
      · exact ⟨e.2, List.mem_append_right _ (List.mem_cons_of_mem _ hmem)⟩
  · rw [hassign]
    exact ⟨e.2, List.mem_append_left _ h⟩

/-! ### All assignments -/

theorem assignAll_cons (old : List (K × V)) (e : K × V) (v : List (K × V)) :
    E.assignAll old (e :: v) = E.assignAll (E.assign e.1 e.2 old) v := rfl

theorem perm_aside (l₁ l₂ : List (K × V)) (h : ∀ y ∈ v, E.eq e.1 y.1 = false) :
    (E.assignAll (l₁ ++ e :: l₂) v).Perm (e :: E.assignAll (l₁ ++ l₂) v) := by
  induction v generalizing l₁ l₂ with
  | nil => exact List.perm_middle
  | cons y v ih =>
    obtain ⟨l₁', l₂', hwith, hwithout⟩ := assign_aside (x := y.2) l₁ l₂
      (h y List.mem_cons_self)
    rw [assignAll_cons, assignAll_cons, hwith, hwithout]
    exact ih _ _ fun z hz => h z (List.mem_cons_of_mem _ hz)

/-- Entries with new keys are added in their order. -/
theorem assignAll_of_distinct (h : E.Distinct (old ++ v)) : E.assignAll old v = old ++ v := by
  induction v generalizing old with
  | nil => rw [List.append_nil]; rfl
  | cons e v ih =>
    have hnew : E.assign e.1 e.2 old = old ++ [e] := by
      rcases E.assign_cases e.1 e.2 old with ⟨l₁, o, l₂, rfl, heq, -⟩ | ⟨-, hassign⟩
      · have hne := (List.pairwise_append.mp h).2.2 o (by simp) e List.mem_cons_self
        rw [heq] at hne
        cases hne
      · exact hassign
    rw [assignAll_cons, hnew, ih (by rwa [List.append_assoc]), List.append_assoc]
    rfl

/-- After the first assignment its entry stands aside: what it replaced, if anything, is gone. -/
theorem assignAll_cons_perm (old : List (K × V)) (hv : E.Distinct (e :: v)) :
    (∃ l₁ o l₂, old = l₁ ++ o :: l₂ ∧ E.eq o.1 e.1 = true ∧
        (E.assignAll old (e :: v)).Perm ((o.1, e.2) :: E.assignAll (l₁ ++ l₂) v)) ∨
      ((∀ o ∈ old, E.eq o.1 e.1 = false) ∧
        (E.assignAll old (e :: v)).Perm (e :: E.assignAll old v)) := by
  have hhead := (List.pairwise_cons.mp hv).1
  rw [assignAll_cons]
  rcases E.assign_cases e.1 e.2 old with ⟨l₁, o, l₂, rfl, heq, hassign⟩ | ⟨hnew, hassign⟩
  · refine Or.inl ⟨l₁, o, l₂, rfl, heq, ?_⟩
    rw [hassign]
    refine perm_aside _ _ fun y hy => Bool.eq_false_iff.mpr fun hoy => ?_
    have hey := E.trans e.1 o.1 y.1 (E.symm o.1 e.1 heq) hoy
    rw [hhead y hy] at hey
    cases hey
  · refine Or.inr ⟨hnew, ?_⟩
    rw [hassign]
    have haside := perm_aside old [] hhead
    rwa [List.append_nil] at haside

theorem length_le_assignAll (hv : E.Distinct v) (old : List (K × V)) :
    v.length ≤ (E.assignAll old v).length := by
  induction v generalizing old with
  | nil => exact Nat.zero_le _
  | cons e v ih =>
    have htail := (List.pairwise_cons.mp hv).2
    rcases assignAll_cons_perm old hv with ⟨l₁, o, l₂, -, -, hperm⟩ | ⟨-, hperm⟩
    · rw [hperm.length_eq]
      exact Nat.succ_le_succ (ih htail (l₁ ++ l₂))
    · rw [hperm.length_eq]
      exact Nat.succ_le_succ (ih htail old)

theorem key_mem_assignAll (v : List (K × V)) (h : e ∈ old) : ∃ y, (e.1, y) ∈ E.assignAll old v := by
  induction v generalizing old e with
  | nil => exact ⟨e.2, h⟩
  | cons z v ih =>
    obtain ⟨y, hy⟩ := key_mem_assign (E := E) z.1 z.2 h
    rw [assignAll_cons]
    exact ih (e := (e.1, y)) hy

/-- If no more entries are there than were assigned, each key that was there is equal to an
assigned one. -/
theorem eq_of_length (hv : E.Distinct v) (hlength : (E.assignAll old v).length = v.length)
    (h : e ∈ old) : ∃ y ∈ v, E.eq e.1 y.1 = true := by
  by_contra hnone
  obtain ⟨l₁, l₂, rfl⟩ := List.append_of_mem h
  have haside : ∀ y ∈ v, E.eq e.1 y.1 = false := by
    intro y hy
    exact Bool.eq_false_iff.mpr fun heq => hnone ⟨y, hy, heq⟩
  have hcount := (perm_aside l₁ l₂ haside).length_eq
  have hle := length_le_assignAll hv (l₁ ++ l₂)
  rw [hlength, List.length_cons] at hcount
  omega

/-- **Old keys that are found again, as they are, leave nothing of the old entries.** -/
theorem assignAll_perm (hold : E.Distinct old) (hv : E.Distinct v)
    (h : ∀ o ∈ old, E.eq o.1 o.1 = true ∧ ∃ y ∈ v, y.1 = o.1) : (E.assignAll old v).Perm v := by
  induction v generalizing old with
  | nil =>
    cases old with
    | nil => exact List.Perm.refl _
    | cons o old =>
      obtain ⟨-, y, hy, -⟩ := h o List.mem_cons_self
      exact absurd hy List.not_mem_nil
  | cons e v ih =>
    have hhead := (List.pairwise_cons.mp hv).1
    have htail := (List.pairwise_cons.mp hv).2
    rcases assignAll_cons_perm old hv with ⟨l₁, o, l₂, rfl, heq, hperm⟩ | ⟨hnew, hperm⟩
    · -- the entry that is replaced has the key of `e` itself
      obtain ⟨hrefl, y, hy, hkey⟩ := h o (by simp)
      have hsame : o.1 = e.1 := by
        rcases List.mem_cons.mp hy with rfl | hy
        · exact hkey.symm
        · have hne := hhead y hy
          rw [hkey, E.symm o.1 e.1 heq] at hne
          cases hne
      obtain ⟨hleft, hright, hacross⟩ := List.pairwise_append.mp hold
      obtain ⟨ho, hright⟩ := List.pairwise_cons.mp hright
      have hrest : E.Distinct (l₁ ++ l₂) :=
        List.pairwise_append.mpr ⟨hleft, hright, fun a ha b hb =>
          hacross a ha b (List.mem_cons_of_mem _ hb)⟩
      have hapart : ∀ a ∈ l₁ ++ l₂, E.eq a.1 o.1 = false := by
        intro a ha
        rcases List.mem_append.mp ha with ha | ha
        · exact hacross a ha o List.mem_cons_self
        · exact eq_comm_false (ho a ha)
      refine hperm.trans ?_
      rw [hsame]
      refine List.Perm.cons e (ih hrest htail fun a ha => ?_)
      obtain ⟨harefl, y, hy, hakey⟩ := h a (by
        rcases List.mem_append.mp ha with ha | ha
        · exact List.mem_append_left _ ha
        · exact List.mem_append_right _ (List.mem_cons_of_mem _ ha))
      refine ⟨harefl, ?_⟩
      rcases List.mem_cons.mp hy with rfl | hy
      · have hne := hapart a ha
        rw [hsame, hakey, harefl] at hne
        cases hne
      · exact ⟨y, hy, hakey⟩
    · refine hperm.trans (List.Perm.cons e (ih hold htail fun a ha => ?_))
      obtain ⟨harefl, y, hy, hakey⟩ := h a ha
      refine ⟨harefl, ?_⟩
      rcases List.mem_cons.mp hy with rfl | hy
      · have hne := hnew a ha
        rw [hakey, harefl] at hne
        cases hne
      · exact ⟨y, hy, hakey⟩

end KeyEq

end IowarpCore
