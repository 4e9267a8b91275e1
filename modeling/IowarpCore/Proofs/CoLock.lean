/-
The holds of a cooperative lock.

While a lock is held with an owner, every hold was let in under the owner's id, and the
depths are the numbers of holds (`MutexUse.Kept`, `RwUse.Kept`).  Two things follow.

A mutex is released with the last hold, and so is a reader-writer lock unless the last
hold is a read hold that was taken under the owner: `ReadUnlock` then counts down to zero
and leaves the lock below it locked, with the owner set.

Two tasks that hold a lock in conflict have the same id.  Subtasks of one task on one
worker have the same id, and they are not ancestors of each other.
-/
import Mathlib.Algebra.Group.Nat.Defs
import IowarpCore.Runtime.CoLock

namespace IowarpCore
namespace CoLock

namespace LockOwnerId

theorem isNull_iff {a : LockOwnerId} : a.isNull = true ↔ a = null := by
  cases a
  simp [isNull, null, and_assoc]

theorem eq_iff {a b : LockOwnerId} : a.eq b = true ↔ a = b ∧ a ≠ null := by
  have hnull : a.isNull = false ↔ a ≠ null := by
    rw [Ne, ← isNull_iff, Bool.not_eq_true]
  unfold eq
  constructor
  · intro h
    split at h
    · cases h
    · rename_i hn
      simp only [Bool.or_eq_true, not_or, Bool.not_eq_true] at hn
      refine ⟨?_, hnull.mp hn.1⟩
      cases a
      cases b
      simpa [and_assoc] using h
  · rintro ⟨rfl, hne⟩
    rw [if_neg (by simp [hnull.mpr hne])]
    simp

end LockOwnerId

variable {τ : Type} {idOf : τ → LockOwnerId}

variable {d : UInt32}

theorem toNat_succ {n : Nat} (hd : d.toNat = n) (hroom : n + 1 < 2 ^ 32) :
    (d + 1).toNat = n + 1 := by
  rw [UInt32.toNat_add, UInt32.toNat_one, hd, Nat.mod_eq_of_lt hroom]

theorem toNat_pred {n : Nat} (hd : d.toNat = n + 1) : (d - 1).toNat = n := by
  have hone : (1 : UInt32) ≤ d := by
    rw [UInt32.le_iff_toNat_le, UInt32.toNat_one]
    omega
  rw [UInt32.toNat_sub_of_le _ _ hone, hd]
  rfl

theorem eq_zero_iff_toNat : d = 0 ↔ d.toNat = 0 := by
  rw [← UInt32.toNat_inj, UInt32.toNat_zero]

/-! ### The mutex -/

namespace MutexUse

/-- What is true between calls: nobody has the mutex, or every hold was let in under the
owner's id and `depth_` counts them. -/
inductive Kept (idOf : τ → LockOwnerId) (s : MutexUse τ) : Prop
  | free : s.mutex.lock_.lock_ = s.mutex.lock_.head_ → s.mutex.holder = .null →
      s.mutex.depth = 0 → s.holds = [] → Kept idOf s
  | held : s.mutex.lock_.lock_ = s.mutex.lock_.head_ + 1 →
      s.mutex.depth.toNat = s.holds.length → s.holds ≠ [] →
      (∀ t ∈ s.holds, idOf t = s.mutex.holder) →
      (s.mutex.holder = .null → s.holds.length = 1) → Kept idOf s

/-- The depth does not wrap. -/
def Room (c : τ × MutexCall) (s : MutexUse τ) : Prop :=
  c.2 ≠ .unlock → s.holds.length + 1 < 2 ^ 32

/-- A call that returns, with room for it. -/
def Calls [DecidableEq τ] (idOf : τ → LockOwnerId) (c : τ × MutexCall) (s s' : MutexUse τ) : Prop :=
  s.call idOf c = some s' ∧ s.Room c

/-- The mutex below is held while there is a hold, and only then. -/
structure Tidy (s : MutexUse τ) : Prop where
  held : s.mutex.lock_.Held ↔ s.holds ≠ []
  clear : s.holds = [] → s.mutex.holder = .null ∧ s.mutex.depth = 0

theorem kept_init : Kept idOf (init : MutexUse τ) :=
  .free rfl rfl rfl rfl

variable {s : MutexUse τ} {t : τ}

theorem Kept.tidy (h : Kept idOf s) : s.Tidy := by
  cases h with
  | free hlock hholder hdepth hholds =>
    refine ⟨?_, fun _ => ⟨hholder, hdepth⟩⟩
    simp [Mutex.Held, hlock, hholds]
  | held hlock hdepth hholds howner hnull =>
    refine ⟨?_, fun h => absurd h hholds⟩
    simp [Mutex.Held, hlock, hholds]

theorem held_of_mem (h : Kept idOf s) (ht : t ∈ s.holds) :
    idOf t = s.mutex.holder := by
  cases h with
  | free _ _ _ hholds => simp [hholds] at ht
  | held _ _ _ howner _ => exact howner t ht

/-- The owner comes in again. -/
theorem Kept.again (h : Kept idOf s)
    (heq : (idOf t).eq s.mutex.holder = true) (hroom : s.holds.length + 1 < 2 ^ 32) :
    Kept idOf ⟨{ s.mutex with depth := s.mutex.depth + 1 }, t :: s.holds⟩ := by
  obtain ⟨hid, hne⟩ := LockOwnerId.eq_iff.mp heq
  cases h with
  | free _ hholder => exact absurd (hid.trans hholder) hne
  | held hlock hdepth hholds howner hnull =>
    refine .held hlock (toNat_succ hdepth hroom) (by simp) ?_ ?_
    · intro u hu
      rcases List.mem_cons.mp hu with rfl | hu
      · exact hid
      · exact howner u hu
    · intro hn
      exact absurd (hid.trans hn) hne

/-- Somebody comes in through the mutex below. -/
theorem Kept.enter {m m' : Mutex} (h : Kept idOf s)
    (hm : m.lock_ = s.mutex.lock_.lock_ ∧ m.head_ = s.mutex.lock_.head_)
    (hlock : m.lock = some m') : Kept idOf ⟨⟨m', idOf t, 1⟩, t :: s.holds⟩ := by
  unfold Mutex.lock at hlock
  split at hlock
  · rename_i hfree
    obtain rfl := Option.some.inj hlock
    cases h with
    | free _ _ _ hholds =>
      rw [hholds]
      refine .held ?_ rfl (by simp) (by simp) (fun _ => rfl)
      show m.lock_ + 1 = m.head_ + 1
      rw [hfree]
    | held hl =>
      rw [hm.1, hm.2, hl] at hfree
      exact absurd hfree (by simp)
  · cases hlock

/-- One hold is given back. -/
theorem Kept.unlock [DecidableEq τ] (h : Kept idOf s) (ht : t ∈ s.holds) :
    Kept idOf ⟨s.mutex.unlock, s.holds.erase t⟩ := by
  cases h with
  | free _ _ _ hholds => simp [hholds] at ht
  | held hlock hdepth hholds howner hnull =>
    have hlen : (s.holds.erase t).length + 1 = s.holds.length := by
      rw [List.length_erase_of_mem ht]
      have := List.length_pos_of_mem ht
      omega
    have hpred : (s.mutex.depth - 1).toNat = (s.holds.erase t).length :=
      toNat_pred (hdepth.trans hlen.symm)
    unfold CoMutex.unlock
    by_cases hlast : s.mutex.depth - 1 = 0
    · rw [if_pos hlast]
      refine .free ?_ rfl hlast ?_
      · exact hlock
      · rw [eq_zero_iff_toNat, hpred] at hlast
        exact List.length_eq_zero_iff.mp hlast
    · rw [if_neg hlast]
      have hpos : (s.holds.erase t).length ≠ 0 := by
        rw [eq_zero_iff_toNat, hpred] at hlast
        exact hlast
      refine .held hlock hpred (fun h => hpos (List.length_eq_zero_iff.mpr h)) ?_ ?_
      · exact fun u hu => howner u (List.mem_of_mem_erase hu)
      · intro hn
        have := hnull hn
        omega

theorem Kept.step [DecidableEq τ] {s' : MutexUse τ} {c : τ × MutexCall} (h : Kept idOf s)
    (hcall : Calls idOf c s s') : Kept idOf s' := by
  obtain ⟨t, op⟩ := c
  obtain ⟨hcall, hroom⟩ := hcall
  cases op with
  | lock =>
    obtain ⟨m, hm, rfl⟩ := Option.map_eq_some_iff.mp hcall
    unfold CoMutex.lock at hm
    split at hm
    · rename_i heq
      obtain rfl := Option.some.inj hm
      exact h.again heq (hroom (by simp))
    · obtain ⟨m', hm', rfl⟩ := Option.map_eq_some_iff.mp hm
      exact h.enter ⟨rfl, rfl⟩ hm'
  | tryLock =>
    obtain ⟨r, hr, rfl⟩ := Option.map_eq_some_iff.mp hcall
    unfold CoMutex.tryLock at hr
    split at hr
    · rename_i heq
      obtain rfl := Option.some.inj hr
      exact h.again heq (hroom (by simp))
    · obtain ⟨r', hr', rfl⟩ := Option.map_eq_some_iff.mp hr
      unfold Mutex.tryLock at hr'
      split at hr'
      · obtain rfl := Option.some.inj hr'
        exact h
      · obtain ⟨m', hm', rfl⟩ := Option.map_eq_some_iff.mp hr'
        exact h.enter
          (m := ⟨s.mutex.lock_.lock_, s.mutex.lock_.head_, s.mutex.lock_.tryLock_ + 1⟩)
          ⟨rfl, rfl⟩ hm'
  | unlock =>
    obtain ⟨ht, hcall⟩ := Option.ite_none_right_eq_some.mp hcall
    obtain rfl := Option.some.inj hcall
    exact h.unlock ht

end MutexUse

/-! ### The reader-writer lock -/

namespace RwUse

/-- The number of holds of a kind. -/
def count (k : Kind) (holds : List (τ × Kind)) : Nat :=
  holds.countP fun h => h.2 == k

/-- What is true between calls: there are only readers and none of them is an owner, or
every hold was let in under the owner's id and the depths count them. -/
inductive Kept (idOf : τ → LockOwnerId) (s : RwUse τ) : Prop
  | shared : s.rwlock.lock_ = ⟨s.holds.length, false⟩ → s.rwlock.holder = .null →
      s.rwlock.writeDepth = 0 → s.rwlock.readDepth = 0 → (∀ h ∈ s.holds, h.2 = .read) →
      Kept idOf s
  | owned : s.rwlock.lock_ = ⟨0, true⟩ → s.rwlock.writeDepth.toNat = count .write s.holds →
      s.rwlock.readDepth.toNat = count .read s.holds →
      (∀ h ∈ s.holds, idOf h.1 = s.rwlock.holder) →
      (s.rwlock.holder = .null → ∃ t, s.holds = [(t, .write)]) → Kept idOf s

/-- The depths do not wrap. -/
def Room (c : τ × RwCall) (s : RwUse τ) : Prop :=
  ∀ k, c.2 = .lock k → count k s.holds + 1 < 2 ^ 32

/-- A call that returns, with room for it. -/
def Calls [DecidableEq τ] (idOf : τ → LockOwnerId) (c : τ × RwCall) (s s' : RwUse τ) : Prop :=
  s.call idOf c = some s' ∧ s.Room c

/-- The last hold is not a read hold that the owner's id gives back. -/
def WriteLast (idOf : τ → LockOwnerId) (c : τ × RwCall) (s : RwUse τ) : Prop :=
  c.2 = .unlock .read → (idOf c.1).eq s.rwlock.holder = true → s.holds ≠ [(c.1, .read)]

/-- The lock below is held while there is a hold, and only then. -/
structure Tidy (s : RwUse τ) : Prop where
  held : s.rwlock.lock_.Held ↔ s.holds ≠ []
  clear : s.holds = [] →
    s.rwlock.holder = .null ∧ s.rwlock.writeDepth = 0 ∧ s.rwlock.readDepth = 0

theorem kept_init : Kept idOf (init : RwUse τ) :=
  .shared rfl rfl rfl rfl (by simp [init])

/-- What `Tidy` asks for beyond `Kept`: an owned lock has a hold. -/
theorem Kept.tidy_iff {s : RwUse τ} (h : Kept idOf s) :
    s.Tidy ↔ (s.rwlock.lock_.writer = true → s.holds ≠ []) := by
  cases h with
  | shared hlock hholder hw hr hreads =>
    refine ⟨fun _ h => by simp [hlock] at h, fun _ => ⟨?_, fun _ => ⟨hholder, hw, hr⟩⟩⟩
    simp [RwLock.Grant.Held, hlock, List.length_pos_iff]
  | owned hlock hw hr howner hnull =>
    constructor
    · intro htidy _
      exact htidy.held.mp (by simp [RwLock.Grant.Held, hlock])
    · intro hholds
      have hne := hholds (by rw [hlock])
      exact ⟨⟨fun _ => hne, fun _ => by simp [RwLock.Grant.Held, hlock]⟩,
        fun h => absurd h hne⟩

section

variable {t : τ} {k : Kind} {holds : List (τ × Kind)}

theorem count_cons_self : count k ((t, k) :: holds) = count k holds + 1 := by
  simp [count]

theorem count_cons_ne {j : Kind} (hk : k ≠ j) : count j ((t, k) :: holds) = count j holds := by
  simp [count, hk]

theorem count_erase_self [DecidableEq τ] (h : (t, k) ∈ holds) :
    count k holds = count k (holds.erase (t, k)) + 1 := by
  have hperm := List.perm_cons_erase h
  rw [count, hperm.countP_eq]
  exact count_cons_self

theorem count_erase_ne [DecidableEq τ] {j : Kind} (h : (t, k) ∈ holds) (hk : k ≠ j) :
    count j (holds.erase (t, k)) = count j holds := by
  have hperm := List.perm_cons_erase h
  rw [count, count, hperm.countP_eq]
  exact (count_cons_ne hk).symm

theorem length_eq_count (holds : List (τ × Kind)) :
    holds.length = count .read holds + count .write holds := by
  induction holds with
  | nil => rfl
  | cons h holds ih =>
    obtain ⟨u, k⟩ := h
    cases k with
    | read =>
      rw [count_cons_self, count_cons_ne (by decide), List.length_cons, ih]
      omega
    | write =>
      rw [count_cons_self, count_cons_ne (by decide), List.length_cons, ih]
      omega

end

/-- The owner comes in again. -/
theorem mem_owner {s : RwUse τ} {t : τ} {k : Kind} (hid : idOf t = s.rwlock.holder)
    (howner : ∀ h ∈ s.holds, idOf h.1 = s.rwlock.holder) :
    ∀ h ∈ (t, k) :: s.holds, idOf h.1 = s.rwlock.holder := by
  intro h hh
  rcases List.mem_cons.mp hh with rfl | hh
  · exact hid
  · exact howner h hh

variable {s : RwUse τ} {t : τ}

theorem Kept.readLock {l : CoRwLock} (h : Kept idOf s) (hroom : count .read s.holds + 1 < 2 ^ 32)
    (hl : s.rwlock.readLock (idOf t) = some l) : Kept idOf ⟨l, (t, .read) :: s.holds⟩ := by
  unfold CoRwLock.readLock at hl
  split at hl
  · rename_i heq
    obtain ⟨hid, hne⟩ := LockOwnerId.eq_iff.mp heq
    obtain rfl := Option.some.inj hl
    cases h with
    | shared _ hholder => exact absurd (hid.trans hholder) hne
    | owned hlock hw hr howner hnull =>
      refine .owned hlock ?_ ?_ (mem_owner hid howner) (fun hn => absurd (hid.trans hn) hne)
      · rw [count_cons_ne (by decide)]
        exact hw
      · rw [count_cons_self]
        exact toNat_succ hr hroom
  · obtain ⟨g, hg, rfl⟩ := Option.map_eq_some_iff.mp hl
    cases h with
    | shared hlock hholder hw hr hreads =>
      rw [hlock] at hg
      obtain rfl := Option.some.inj hg
      exact .shared rfl hholder hw hr (by simpa using hreads)
    | owned hlock =>
      rw [hlock] at hg
      cases hg

theorem Kept.writeLock {l : CoRwLock} (h : Kept idOf s)
    (hroom : count .write s.holds + 1 < 2 ^ 32)
    (hl : s.rwlock.writeLock (idOf t) = some l) : Kept idOf ⟨l, (t, .write) :: s.holds⟩ := by
  unfold CoRwLock.writeLock at hl
  split at hl
  · rename_i heq
    obtain ⟨hid, hne⟩ := LockOwnerId.eq_iff.mp heq
    obtain rfl := Option.some.inj hl
    cases h with
    | shared _ hholder => exact absurd (hid.trans hholder) hne
    | owned hlock hw hr howner hnull =>
      refine .owned hlock ?_ ?_ (mem_owner hid howner) (fun hn => absurd (hid.trans hn) hne)
      · rw [count_cons_self]
        exact toNat_succ hw hroom
      · rw [count_cons_ne (by decide)]
        exact hr
  · obtain ⟨g, hg, rfl⟩ := Option.map_eq_some_iff.mp hl
    unfold RwLock.Grant.writeLock at hg
    split at hg
    · cases hg
    · rename_i hfree
      obtain rfl := Option.some.inj hg
      cases h with
      | shared hlock hholder hw hr hreads =>
        rw [hlock] at hfree
        have hnil : s.holds = [] := by
          simpa using hfree
        rw [hnil]
        refine .owned ?_ rfl ?_ (by simp) (fun _ => ⟨t, rfl⟩)
        · simp [hlock, hnil]
        · rw [hr]
          rfl
      | owned hlock => simp [hlock] at hfree

theorem Kept.readUnlock [DecidableEq τ] (h : Kept idOf s) (ht : (t, .read) ∈ s.holds) :
    Kept idOf ⟨s.rwlock.readUnlock (idOf t), s.holds.erase (t, .read)⟩ := by
  unfold CoRwLock.readUnlock
  cases h with
  | shared hlock hholder hw hr hreads =>
    have hother : ¬ ((idOf t).eq s.rwlock.holder = true ∧ s.rwlock.readDepth > 0) := by
      rintro ⟨heq, -⟩
      obtain ⟨hid, hne⟩ := LockOwnerId.eq_iff.mp heq
      exact hne (hid.trans hholder)
    rw [if_neg hother]
    refine .shared ?_ hholder hw hr (fun h hh => hreads h (List.mem_of_mem_erase hh))
    simp [hlock, RwLock.Grant.readUnlock, List.length_erase_of_mem ht]
  | owned hlock hw hr howner hnull =>
    have hne : s.rwlock.holder ≠ .null := by
      intro hn
      obtain ⟨u, hu⟩ := hnull hn
      simp [hu] at ht
    have hid : idOf t = s.rwlock.holder := howner _ ht
    have hdepth : s.rwlock.readDepth.toNat = count .read (s.holds.erase (t, .read)) + 1 :=
      hr.trans (count_erase_self ht)
    have hpos : s.rwlock.readDepth > 0 := by
      rw [gt_iff_lt, UInt32.lt_iff_toNat_lt, UInt32.toNat_zero]
      omega
    rw [if_pos ⟨LockOwnerId.eq_iff.mpr ⟨hid, hid ▸ hne⟩, hpos⟩]
    refine .owned hlock ?_ (toNat_pred hdepth) ?_ (fun hn => absurd hn hne)
    · rw [count_erase_ne ht (by decide)]
      exact hw
    · exact fun h hh => howner h (List.mem_of_mem_erase hh)

theorem Kept.writeUnlock [DecidableEq τ] (h : Kept idOf s) (ht : (t, .write) ∈ s.holds) :
    Kept idOf ⟨s.rwlock.writeUnlock, s.holds.erase (t, .write)⟩ := by
  unfold CoRwLock.writeUnlock
  cases h with
  | shared hlock hholder hw hr hreads => exact absurd (hreads _ ht) (by simp)
  | owned hlock hw hr howner hnull =>
    have hpred : (s.rwlock.writeDepth - 1).toNat = count .write (s.holds.erase (t, .write)) :=
      toNat_pred (hw.trans (count_erase_self ht))
    have hreads := count_erase_ne (j := .read) ht (by decide)
    have hlength := length_eq_count (s.holds.erase (t, .write))
    by_cases hlast : s.rwlock.writeDepth - 1 = 0 ∧ s.rwlock.readDepth = 0
    · rw [if_pos hlast]
      have hnil : s.holds.erase (t, .write) = [] := by
        have h1 := eq_zero_iff_toNat.mp hlast.1
        have h2 := eq_zero_iff_toNat.mp hlast.2
        exact List.length_eq_zero_iff.mp (by omega)
      refine .shared ?_ rfl hlast.1 hlast.2 (by simp [hnil])
      simp [hlock, hnil, RwLock.Grant.writeUnlock]
    · rw [if_neg hlast]
      refine .owned hlock hpred ?_ (fun h hh => howner h (List.mem_of_mem_erase hh)) ?_
      · rw [hreads]
        exact hr
      · intro hn
        obtain ⟨u, hu⟩ := hnull hn
        refine absurd ⟨eq_zero_iff_toNat.mpr ?_, eq_zero_iff_toNat.mpr ?_⟩ hlast
        · rw [hpred]
          have hone : count .write s.holds = 1 := by rw [hu]; rfl
          have := count_erase_self ht
          omega
        · rw [hr, hu]
          rfl

theorem Kept.step [DecidableEq τ] {s' : RwUse τ} {c : τ × RwCall} (h : Kept idOf s)
    (hcall : Calls idOf c s s') : Kept idOf s' := by
  obtain ⟨t, op⟩ := c
  obtain ⟨hcall, hroom⟩ := hcall
  cases op with
  | lock k =>
    cases k with
    | read =>
      obtain ⟨l, hl, rfl⟩ := Option.map_eq_some_iff.mp hcall
      exact h.readLock (hroom _ rfl) hl
    | write =>
      obtain ⟨l, hl, rfl⟩ := Option.map_eq_some_iff.mp hcall
      exact h.writeLock (hroom _ rfl) hl
  | unlock k =>
    cases k with
    | read =>
      obtain ⟨ht, hcall⟩ := Option.ite_none_right_eq_some.mp hcall
      obtain rfl := Option.some.inj hcall
      exact h.readUnlock ht
    | write =>
      obtain ⟨ht, hcall⟩ := Option.ite_none_right_eq_some.mp hcall
      obtain rfl := Option.some.inj hcall
      exact h.writeUnlock ht

/-- Giving back a write hold leaves an owned lock only if there is another hold. -/
theorem Kept.writeUnlock_owned [DecidableEq τ] (h : Kept idOf s) (ht : (t, .write) ∈ s.holds)
    (howned : s.rwlock.writeUnlock.lock_.writer = true) : s.holds.erase (t, .write) ≠ [] := by
  intro hnil
  cases h with
  | shared _ _ _ _ hreads => exact absurd (hreads _ ht) (by simp)
  | owned hlock hw hr howner hnull =>
    have hpred : (s.rwlock.writeDepth - 1).toNat = count .write (s.holds.erase (t, .write)) :=
      toNat_pred (hw.trans (count_erase_self ht))
    have hreads := count_erase_ne (j := .read) ht (by decide)
    rw [hnil] at hpred hreads
    have hlast : s.rwlock.writeDepth - 1 = 0 ∧ s.rwlock.readDepth = 0 :=
      ⟨eq_zero_iff_toNat.mpr hpred, eq_zero_iff_toNat.mpr (hr.trans hreads.symm)⟩
    rw [CoRwLock.writeUnlock, if_pos hlast] at howned
    cases howned

/-- Giving back a read hold leaves an owned lock owned. -/
theorem Kept.readUnlock_owned (h : Kept idOf s) (ht : (t, .read) ∈ s.holds) :
    (s.rwlock.readUnlock (idOf t)).lock_.writer = true ↔
      (idOf t).eq s.rwlock.holder = true := by
  have hsame : (s.rwlock.readUnlock (idOf t)).lock_.writer = s.rwlock.lock_.writer := by
    unfold CoRwLock.readUnlock
    split <;> rfl
  rw [hsame]
  cases h with
  | shared hlock hholder =>
    simp only [hlock, Bool.false_eq_true, false_iff, hholder]
    intro heq
    obtain ⟨hid, hne⟩ := LockOwnerId.eq_iff.mp heq
    exact hne hid
  | owned hlock hw hr howner hnull =>
    simp only [hlock, true_iff]
    have hid : idOf t = s.rwlock.holder := howner _ ht
    refine LockOwnerId.eq_iff.mpr ⟨hid, ?_⟩
    intro hn
    obtain ⟨u, hu⟩ := hnull (hid ▸ hn)
    simp [hu] at ht

/-- **A call keeps the lock tidy exactly if it is not the last unlock of a read hold under
the owner.** -/
theorem Kept.tidy_step_iff [DecidableEq τ] {s' : RwUse τ} {c : τ × RwCall} (h : Kept idOf s)
    (hcall : Calls idOf c s s') : s'.Tidy ↔ s.WriteLast idOf c := by
  rw [(h.step hcall).tidy_iff]
  obtain ⟨t, op⟩ := c
  obtain ⟨hcall, -⟩ := hcall
  cases op with
  | lock k =>
    refine ⟨fun _ hop => (by cases hop), fun _ _ => ?_⟩
    cases k with
    | read | write =>
      obtain ⟨l, hl, rfl⟩ := Option.map_eq_some_iff.mp hcall
      simp
  | unlock k =>
    cases k with
    | write =>
      refine ⟨fun _ hop => (by cases hop), fun _ howned => ?_⟩
      obtain ⟨ht, hcall⟩ := Option.ite_none_right_eq_some.mp hcall
      obtain rfl := Option.some.inj hcall
      exact h.writeUnlock_owned ht howned
    | read =>
      obtain ⟨ht, hcall⟩ := Option.ite_none_right_eq_some.mp hcall
      obtain rfl := Option.some.inj hcall
      have hnil : s.holds.erase (t, .read) = [] ↔ s.holds = [(t, .read)] := by
        constructor
        · intro hnil
          have hperm := List.perm_cons_erase ht
          rw [hnil] at hperm
          exact List.perm_singleton.mp hperm
        · intro hone
          simp [hone]
      show ((s.rwlock.readUnlock (idOf t)).lock_.writer = true → s.holds.erase _ ≠ []) ↔ _
      rw [h.readUnlock_owned ht, Ne, hnil]
      exact ⟨fun hlast _ => hlast, fun hlast => hlast rfl⟩

end RwUse

/-! ### Released with the last hold -/

/-- **In every sequence of calls the mutex below is held while there is a hold, and only
then; and so is the reader-writer lock below, exactly as long as no last hold is a read
hold given back under the owner's id.**  The callers have one id or several. -/
theorem released_with_last_hold [DecidableEq τ] (idOf : τ → LockOwnerId) :
    (∀ calls s, Along (MutexUse.Calls idOf) calls .init s → s.Tidy) ∧
    (∀ calls s,
      Along (fun c s s' => RwUse.Calls idOf c s s' ∧ s.WriteLast idOf c) calls .init s ↔
        Along (fun c s s' => RwUse.Calls idOf c s s' ∧ s'.Tidy) calls .init s) := by
  constructor
  · intro calls s h
    exact (h.invariant (fun _ _ _ _ hs hc => hs.step hc) MutexUse.kept_init).tidy
  · intro calls s
    refine Along.congr_of_invariant (I := RwUse.Kept idOf) ?_ ?_ RwUse.kept_init
    · intro c s s' hs
      exact and_congr_right fun hc => (hs.tidy_step_iff hc).symm
    · intro c s s' hs hc
      exact hs.step hc.1

/-- An owner that nests a read hold in a write hold. -/
theorem released_after_nested_read :
    Along (fun c s s' => RwUse.Calls (fun _ => ⟨1, 2, 3, 4, 5⟩) c s s' ∧ s'.Tidy)
      [((), .lock .write), ((), .lock .read), ((), .unlock .read), ((), .unlock .write)]
      RwUse.init RwUse.init := by
  refine ((released_with_last_hold fun _ => ⟨1, 2, 3, 4, 5⟩).2 _ _).mp ?_
  refine ⟨⟨⟨⟨0, true⟩, ⟨1, 2, 3, 4, 5⟩, 1, 0⟩, [((), .write)]⟩, ⟨⟨rfl, ?_⟩, ?_⟩,
    ⟨⟨⟨0, true⟩, ⟨1, 2, 3, 4, 5⟩, 1, 1⟩, [((), .read), ((), .write)]⟩, ⟨⟨rfl, ?_⟩, ?_⟩,
    ⟨⟨⟨0, true⟩, ⟨1, 2, 3, 4, 5⟩, 1, 0⟩, [((), .write)]⟩, ⟨⟨rfl, ?_⟩, ?_⟩,
    RwUse.init, ⟨⟨rfl, ?_⟩, ?_⟩, rfl⟩
  · intro k hk
    simp [RwUse.count, RwUse.init]
  · intro hop
    cases hop
  · intro k hk
    obtain rfl : Kind.read = k := by simpa using hk
    simp [RwUse.count]
  · intro hop
    cases hop
  · intro k hk
    cases hk
  · intro _ _
    simp
  · intro k hk
    cases hk
  · intro hop
    cases hop

/-- **The parent unlocks before its subtask: no hold is left, and the lock is held.** -/
theorem held_after_read_last :
    ∃ s : RwUse Unit,
      Along (RwUse.Calls fun _ => ⟨1, 2, 3, 4, 5⟩)
        [((), .lock .write), ((), .lock .read), ((), .unlock .write), ((), .unlock .read)]
        .init s ∧ s.holds = [] ∧ s.rwlock.lock_.Held ∧ s.rwlock.holder ≠ .null := by
  refine ⟨⟨⟨⟨0, true⟩, ⟨1, 2, 3, 4, 5⟩, 0, 0⟩, []⟩, ?_, rfl, Or.inl rfl, by decide⟩
  refine ⟨⟨⟨⟨0, true⟩, ⟨1, 2, 3, 4, 5⟩, 1, 0⟩, [((), .write)]⟩, ⟨rfl, ?_⟩,
    ⟨⟨⟨0, true⟩, ⟨1, 2, 3, 4, 5⟩, 1, 1⟩, [((), .read), ((), .write)]⟩, ⟨rfl, ?_⟩,
    ⟨⟨⟨0, true⟩, ⟨1, 2, 3, 4, 5⟩, 0, 1⟩, [((), .read)]⟩, ⟨rfl, ?_⟩,
    _, ⟨rfl, ?_⟩, rfl⟩
  · intro k hk
    simp [RwUse.count, RwUse.init]
  · intro k hk
    obtain rfl : Kind.read = k := by simpa using hk
    simp [RwUse.count]
  · intro k hk
    cases hk
  · intro k hk
    cases hk

/-! ### Exclusion between tasks -/

/-- Tasks that have the mutex together are on one line of ancestors. -/
def MutexUse.Exclusive (T : Tasks) (s : MutexUse Nat) : Prop :=
  ∀ t u, t ∈ s.holds → u ∈ s.holds → T.Related t u

/-- A task that has the lock for writing and one that has it are on one line of ancestors. -/
def RwUse.Exclusive (T : Tasks) (s : RwUse Nat) : Prop :=
  ∀ t u k, (t, .write) ∈ s.holds → (u, k) ∈ s.holds → T.Related t u

namespace MutexUse

/-- Who has the mutex has called it. -/
theorem holds_of_calls {T : Tasks} {s s' : MutexUse Nat} {c : Nat × MutexCall} {t : Nat}
    (h : Calls T.lockOwnerId c s s') (ht : t ∈ s'.holds) : t = c.1 ∨ t ∈ s.holds := by
  obtain ⟨u, op⟩ := c
  obtain ⟨h, -⟩ := h
  cases op with
  | lock =>
    obtain ⟨m, -, rfl⟩ := Option.map_eq_some_iff.mp h
    exact List.mem_cons.mp ht
  | tryLock =>
    obtain ⟨r, -, rfl⟩ := Option.map_eq_some_iff.mp h
    simp only at ht
    split at ht
    · exact List.mem_cons.mp ht
    · exact Or.inr ht
  | unlock =>
    simp only [call] at h
    split at h
    · obtain rfl := Option.some.inj h
      exact Or.inr (List.mem_of_mem_erase ht)
    · cases h

/-- Two holds at once are holds of the owner. -/
theorem Kept.same_owner {T : Tasks} {s : MutexUse Nat} {t u : Nat}
    (h : Kept T.lockOwnerId s) (ht : t ∈ s.holds) (hu : u ∈ s.holds) (hne : t ≠ u) :
    (T.lockOwnerId t).eq (T.lockOwnerId u) = true := by
  rw [LockOwnerId.eq_iff, held_of_mem h ht, held_of_mem h hu]
  refine ⟨rfl, ?_⟩
  intro hn
  cases h with
  | free _ _ _ hholds => simp [hholds] at ht
  | held _ _ _ _ hnull =>
    obtain ⟨v, hv⟩ := List.length_eq_one_iff.mp (hnull hn)
    rw [hv, List.mem_singleton] at ht hu
    exact hne (ht.trans hu.symm)

end MutexUse

namespace RwUse

/-- Who has the lock has called it. -/
theorem holds_of_calls {T : Tasks} {s s' : RwUse Nat} {c : Nat × RwCall} {h : Nat × Kind}
    (hc : Calls T.lockOwnerId c s s') (hh : h ∈ s'.holds) : h.1 = c.1 ∨ h ∈ s.holds := by
  obtain ⟨u, op⟩ := c
  obtain ⟨hc, -⟩ := hc
  have hcons {k : Kind} (hh : h ∈ (u, k) :: s.holds) : h.1 = u ∨ h ∈ s.holds := by
    rcases List.mem_cons.mp hh with rfl | hh
    · exact Or.inl rfl
    · exact Or.inr hh
  cases op with
  | lock k =>
    cases k with
    | read | write =>
      obtain ⟨l, -, rfl⟩ := Option.map_eq_some_iff.mp hc
      exact hcons hh
  | unlock k =>
    cases k with
    | read | write =>
      simp only [call] at hc
      split at hc
      · obtain rfl := Option.some.inj hc
        exact Or.inr (List.mem_of_mem_erase hh)
      · cases hc

/-- Two holds at once, one of them a write hold, are holds of the owner. -/
theorem Kept.same_owner {T : Tasks} {s : RwUse Nat} {t u : Nat} {k : Kind}
    (h : Kept T.lockOwnerId s) (ht : (t, .write) ∈ s.holds) (hu : (u, k) ∈ s.holds)
    (hne : t ≠ u) : (T.lockOwnerId t).eq (T.lockOwnerId u) = true := by
  cases h with
  | shared _ _ _ _ hreads => exact absurd (hreads _ ht) (by simp)
  | owned _ _ _ howner hnull =>
    have hidt : T.lockOwnerId t = s.rwlock.holder := howner _ ht
    have hidu : T.lockOwnerId u = s.rwlock.holder := howner _ hu
    rw [LockOwnerId.eq_iff, hidt, hidu]
    refine ⟨rfl, ?_⟩
    intro hn
    obtain ⟨v, hv⟩ := hnull hn
    simp only [hv, List.mem_singleton, Prod.mk.injEq] at ht hu
    exact hne (ht.1.trans hu.1.symm)

end RwUse

section

variable (T : Tasks) (uses : Nat → Prop)

/-- Tasks that use a lock under one id are on one line of ancestors. -/
def OneLine : Prop :=
  ∀ t u, uses t → uses u → (T.lockOwnerId t).eq (T.lockOwnerId u) = true → T.Related t u

def UsesMutex (c : Nat × MutexCall) (s s' : MutexUse Nat) : Prop :=
  uses c.1 ∧ MutexUse.Calls T.lockOwnerId c s s'

def UsesRw (c : Nat × RwCall) (s s' : RwUse Nat) : Prop :=
  uses c.1 ∧ RwUse.Calls T.lockOwnerId c s s'

variable {T uses}

theorem mutex_exclusive_of_oneLine (h : OneLine T uses) {calls : List (Nat × MutexCall)}
    {s : MutexUse Nat} (hrun : Along (UsesMutex T uses) calls .init s) : s.Exclusive T := by
  have hinv : MutexUse.Kept T.lockOwnerId s ∧ ∀ t ∈ s.holds, uses t := by
    refine hrun.invariant (I := fun s => MutexUse.Kept T.lockOwnerId s ∧ ∀ t ∈ s.holds, uses t)
      ?_ ⟨MutexUse.kept_init, by simp [MutexUse.init]⟩
    rintro c - s s' ⟨hkept, huses⟩ ⟨hc, hcall⟩
    refine ⟨hkept.step hcall, fun t ht => ?_⟩
    rcases MutexUse.holds_of_calls hcall ht with rfl | ht
    · exact hc
    · exact huses t ht
  intro t u ht hu
  by_cases hne : t = u
  · exact Or.inl hne
  · exact h t u (hinv.2 t ht) (hinv.2 u hu) (hinv.1.same_owner ht hu hne)

theorem rw_exclusive_of_oneLine (h : OneLine T uses) {calls : List (Nat × RwCall)}
    {s : RwUse Nat} (hrun : Along (UsesRw T uses) calls .init s) : s.Exclusive T := by
  have hinv : RwUse.Kept T.lockOwnerId s ∧ ∀ x ∈ s.holds, uses x.1 := by
    refine hrun.invariant (I := fun s => RwUse.Kept T.lockOwnerId s ∧ ∀ x ∈ s.holds, uses x.1)
      ?_ ⟨RwUse.kept_init, by simp [RwUse.init]⟩
    rintro c - s s' ⟨hkept, huses⟩ ⟨hc, hcall⟩
    refine ⟨hkept.step hcall, fun x hx => ?_⟩
    rcases RwUse.holds_of_calls hcall hx with hx | hx
    · rw [hx]
      exact hc
    · exact huses x hx
  intro t u k ht hu
  by_cases hne : t = u
  · exact Or.inl hne
  · exact h t u (hinv.2 _ ht) (hinv.2 _ hu) (hinv.1.same_owner ht hu hne)

/-- The owner's id lets a second task in. -/
theorem mutex_second {t u : Nat} (ht : uses t) (hu : uses u)
    (heq : (T.lockOwnerId u).eq (T.lockOwnerId t) = true) :
    Along (UsesMutex T uses) [(t, .lock), (u, .lock)] .init
      ⟨⟨⟨1, 0, 0⟩, T.lockOwnerId t, 2⟩, [u, t]⟩ := by
  have hfresh : (T.lockOwnerId t).eq .null = false := by
    rw [← Bool.not_eq_true, LockOwnerId.eq_iff]
    exact fun h => h.2 h.1
  refine ⟨⟨⟨⟨1, 0, 0⟩, T.lockOwnerId t, 1⟩, [t]⟩, ⟨ht, ?_, ?_⟩, _, ⟨hu, ?_, ?_⟩, rfl⟩
  · simp [MutexUse.call, MutexUse.init, CoMutex.init, CoMutex.lock, hfresh, Mutex.lock, Mutex.init]
  · intro _
    simp [MutexUse.init]
  · simp only [MutexUse.call, CoMutex.lock, heq, if_true, Option.map_some]
    rfl
  · intro _
    simp

/-- The owner's id lets a reader in. -/
theorem rw_second {t u : Nat} (ht : uses t) (hu : uses u)
    (heq : (T.lockOwnerId u).eq (T.lockOwnerId t) = true) :
    Along (UsesRw T uses) [(t, .lock .write), (u, .lock .read)] .init
      ⟨⟨⟨0, true⟩, T.lockOwnerId t, 1, 1⟩, [(u, .read), (t, .write)]⟩ := by
  have hfresh : (T.lockOwnerId t).eq .null = false := by
    rw [← Bool.not_eq_true, LockOwnerId.eq_iff]
    exact fun h => h.2 h.1
  refine ⟨⟨⟨⟨0, true⟩, T.lockOwnerId t, 1, 0⟩, [(t, .write)]⟩, ⟨ht, ?_, ?_⟩, _, ⟨hu, ?_, ?_⟩, rfl⟩
  · simp [RwUse.call, RwUse.init, CoRwLock.init, CoRwLock.writeLock, hfresh,
      RwLock.Grant.writeLock, RwLock.Grant.free]
  · intro k _
    simp [RwUse.init, RwUse.count]
  · simp only [RwUse.call, CoRwLock.readLock, heq, if_true, Option.map_some]
    rfl
  · intro k hk
    obtain rfl : Kind.read = k := by simpa using hk
    simp [RwUse.count]

end

theorem Tasks.Ancestor.lt {T : Tasks} {a t : Nat} (h : T.Ancestor a t) : a < t := by
  induction h with
  | parent hp => exact T.older _ _ hp
  | above _ hp ih => exact Nat.lt_trans ih (T.older _ _ hp)

/-- Tasks 1 and 2 are subtasks of task 0, on the same worker. -/
def siblings : Tasks where
  parent t := if t = 1 ∨ t = 2 then some 0 else none
  taskId _ := ⟨7, 7, 1, 1⟩
  worker _ := 3
  older t p h := by
    split at h
    · obtain rfl := Option.some.inj h
      omega
    · cases h
  inherits _ _ _ := rfl

end CoLock
end IowarpCore
