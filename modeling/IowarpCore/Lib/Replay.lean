/-
Replaying a log, seen from one key.

For one key a record does one of three things: nothing, give the key a value (or none)
whatever it had, or change the value if there is one.  Such effects compose to such
effects, and doing one twice is doing it once.  Two facts about logs follow.  Replaying a
log over the state it already leads to changes nothing (`replayed_idem`), which is why a
snapshot may be newer than the log behind it.  And a record may be slipped in behind
the records of its key but in front of others without any difference (`replayed_insert`),
which is why one key's records may stand in several logs as long as they stand in order.
-/
import Mathlib.Data.List.Basic

namespace IowarpCore

/-- What a record does to the value of one key. -/
inductive Effect (β : Type) where
  | keep
  | put (v : Option β)
  | change (b : β)

namespace Effect

variable {β τ : Type}

def apply : Effect β → Option β → Option β
  | keep, s => s
  | put v, _ => v
  | change b, s => s.map fun _ => b

/-- First `e`, then `f`. -/
def comp (e f : Effect β) : Effect β :=
  match f with
  | keep => e
  | put v => put v
  | change b =>
    match e with
    | keep => change b
    | put v => put (v.map fun _ => b)
    | change _ => change b

theorem apply_comp (e f : Effect β) (s : Option β) : (e.comp f).apply s = f.apply (e.apply s) := by
  cases f with
  | keep => rfl
  | put v => rfl
  | change b =>
    cases e with
    | keep => rfl
    | put v => rfl
    | change b' =>
      cases s with
      | none => rfl
      | some x => rfl

theorem apply_idem (e : Effect β) (s : Option β) : e.apply (e.apply s) = e.apply s := by
  cases e with
  | keep => rfl
  | put v => rfl
  | change b =>
    cases s with
    | none => rfl
    | some x => rfl

end Effect

variable {β τ : Type}

/-- The value of a key after a log, where `eff` says what each record does to it. -/
def replayed (eff : τ → Effect β) (log : List τ) (s : Option β) : Option β :=
  log.foldl (fun s t => (eff t).apply s) s

section

variable {eff : τ → Effect β} {log pre post : List τ} {s : Option β} {t : τ}

@[simp] theorem replayed_nil : replayed eff [] s = s := rfl

@[simp] theorem replayed_cons : replayed eff (t :: log) s = replayed eff log ((eff t).apply s) := rfl

theorem replayed_append : replayed eff (pre ++ post) s = replayed eff post (replayed eff pre s) :=
  List.foldl_append

/-- A whole log is one effect. -/
theorem replayed_eq_apply (eff : τ → Effect β) (log : List τ) :
    ∃ e : Effect β, ∀ s, replayed eff log s = e.apply s := by
  induction log with
  | nil => exact ⟨.keep, fun _ => rfl⟩
  | cons t log ih =>
    obtain ⟨e, he⟩ := ih
    refine ⟨(eff t).comp e, ?_⟩
    intro s
    rw [replayed_cons, he, Effect.apply_comp]

/-- A log replayed over what it leads to leads there again. -/
theorem replayed_idem (eff : τ → Effect β) (log : List τ) (s : Option β) :
    replayed eff log (replayed eff log s) = replayed eff log s := by
  obtain ⟨e, he⟩ := replayed_eq_apply eff log
  rw [he, he, Effect.apply_idem]

/-- So do two logs, one behind the other. -/
theorem replayed_replayed_idem {τ' : Type} (eff : τ → Effect β) (eff' : τ' → Effect β)
    (log : List τ) (log' : List τ') (s : Option β) :
    replayed eff' log' (replayed eff log (replayed eff' log' (replayed eff log s))) =
      replayed eff' log' (replayed eff log s) := by
  obtain ⟨e, he⟩ := replayed_eq_apply eff log
  obtain ⟨e', he'⟩ := replayed_eq_apply eff' log'
  have hboth : ∀ s, replayed eff' log' (replayed eff log s) = (e.comp e').apply s := by
    intro s
    rw [he, he', Effect.apply_comp]
  rw [hboth, hboth, Effect.apply_idem]

theorem replayed_of_keep (h : ∀ t ∈ log, eff t = .keep) : replayed eff log s = s := by
  induction log with
  | nil => rfl
  | cons t log ih =>
    rw [replayed_cons, h t (by simp)]
    exact ih fun t' ht' => h t' (List.mem_cons_of_mem _ ht')

/-- A record with nothing about its key behind it might as well be the last. -/
theorem replayed_insert (h : eff t = .keep ∨ ∀ t' ∈ post, eff t' = .keep) :
    replayed eff (pre ++ t :: post) s = (eff t).apply (replayed eff (pre ++ post) s) := by
  rw [replayed_append, replayed_append, replayed_cons]
  rcases h with h | h
  · rw [h]
    rfl
  · rw [replayed_of_keep h, replayed_of_keep h]

/-- What is left of a log after its front was cut off, replayed over where the whole log
led, leads there again. -/
theorem replayed_tail (h : log = pre ++ post) (s : Option β) :
    replayed eff post (replayed eff log s) = replayed eff log s := by
  rw [h, replayed_append, replayed_idem]

/-- A log that leads to nothing leads from nothing to nothing. -/
theorem replayed_none (h : replayed eff log s = none) : replayed eff log none = none := by
  obtain ⟨e, he⟩ := replayed_eq_apply eff log
  rw [he] at h ⊢
  cases e with
  | keep => rfl
  | put v => exact h
  | change b => rfl

/-- Where records keep the value or take it away, the log does one or the other. -/
theorem replayed_erasing (h : ∀ t, eff t = .keep ∨ eff t = .put none) (log : List τ) :
    (∀ t ∈ log, eff t = .keep) ∨ ∀ s, replayed eff log s = none := by
  induction log with
  | nil => exact Or.inl fun t ht => by simp at ht
  | cons t log ih =>
    rcases ih with hkeep | hnone
    · rcases h t with ht | ht
      · left
        intro t' ht'
        rcases List.mem_cons.mp ht' with heq | hmem
        · rw [heq, ht]
        · exact hkeep t' hmem
      · right
        intro s
        rw [replayed_cons, ht]
        exact replayed_of_keep hkeep
    · exact Or.inr fun s => hnone _

end

end IowarpCore
