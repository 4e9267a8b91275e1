/-
Cooperative tasks over a state of their own and servers they send requests to.

A task is a tree of what it does between two awaits.  It reads and writes the state it
shares with the other tasks (`get`, `set`), takes values the program leaves open
(`choose`: a random draw, the worker that happens to run it), and sends requests.  `io`
sends a whole list at once and then awaits the replies in order; the first reply
that is not `ok` ends the waiting, so the continuation gets the replies up to that
one and the requests behind it are served without anybody looking.

`Runs` is a task that runs alone, from its start to its end.  What a server may answer
is a relation `S`, and a batch is served in any order, so a fact about every run is
a fact about every environment.  Restricting `S` restricts the runs to those whose
requests are all served so, which is how a condition on every request of a run is
stated.  `exec` runs a task against a scripted environment and `runs_exec` says that
this is one of its runs.
-/
import Mathlib.Data.List.Perm.Basic

namespace IowarpCore

/-- A task over the shared state `σ` that sends requests `Q`, gets replies `R` and
returns an `α`. -/
inductive Co (σ Q R α : Type) where
  | ret (a : α)
  | get (k : σ → Co σ Q R α)
  | set (s : σ) (k : Co σ Q R α)
  | choose (k : Nat → Co σ Q R α)
  | io (qs : List Q) (ok : Q → R → Bool) (k : List R → Co σ Q R α)

/-- The state the tasks share and the state of the servers. -/
structure World (σ δ : Type) where
  c : σ
  d : δ

namespace Co

variable {σ δ Q R α β γ ε : Type}

def bind : Co σ Q R α → (α → Co σ Q R β) → Co σ Q R β
  | ret a, f => f a
  | get k, f => get fun s => (k s).bind f
  | set s k, f => set s (k.bind f)
  | choose k, f => choose fun n => (k n).bind f
  | io qs ok k, f => io qs ok fun rs => (k rs).bind f

instance : Monad (Co σ Q R) where
  pure := ret
  bind := bind

@[simp] theorem pure_eq (a : α) : (pure a : Co σ Q R α) = ret a := rfl

@[simp] theorem bind_eq (x : Co σ Q R α) (f : α → Co σ Q R β) : (x >>= f) = x.bind f := rfl

/-- The shared state. -/
def read : Co σ Q R σ := get ret

/-- Change the shared state. -/
def modify (f : σ → σ) : Co σ Q R Unit := get fun s => set (f s) (ret ())

/-- A value the program leaves open. -/
def draw : Co σ Q R Nat := choose ret

/-- Send one request and await its reply. -/
def call [Inhabited R] (q : Q) : Co σ Q R R :=
  io [q] (fun _ _ => true) fun rs => ret (rs.headD default)

/-- Send a batch of requests; the replies up to the first that is not `ok`. -/
def callAll (ok : Q → R → Bool) (qs : List Q) : Co σ Q R (List R) := io qs ok ret

/-- `std::shuffle`: any order of the list, one element after another. -/
def shuffleFuel : Nat → List α → Co σ Q R (List α)
  | 0, l => ret l
  | n + 1, l => choose fun i =>
    match l[i % l.length]? with
    | none => ret l
    | some a => (shuffleFuel n (l.eraseIdx (i % l.length))).bind fun rest => ret (a :: rest)

def shuffle (l : List α) : Co σ Q R (List α) := shuffleFuel l.length l

/-! ### Serving requests -/

/-- A batch served in any order.  Replies stand where their requests stood. -/
inductive ServeAll (S : Q → δ → R → δ → Prop) : List Q → δ → List R → δ → Prop
  | nil (d : δ) : ServeAll S [] d [] d
  | pick {qs₁ qs₂ : List Q} {q : Q} {rs₁ rs₂ : List R} {r : R} {d d₁ d₂ : δ} :
      S q d r d₁ → rs₁.length = qs₁.length → ServeAll S (qs₁ ++ qs₂) d₁ (rs₁ ++ rs₂) d₂ →
      ServeAll S (qs₁ ++ q :: qs₂) d (rs₁ ++ r :: rs₂) d₂

/-- The replies a task sees: those up to the first that is not `ok`. -/
def awaited (ok : Q → R → Bool) : List Q → List R → List R
  | q :: qs, r :: rs => if ok q r then r :: awaited ok qs rs else [r]
  | _, _ => []

variable {qs : List Q} {d d' : δ} {rs : List R}

/-- When every reply is `ok`, all of them are awaited. -/
theorem awaited_of_all {ok : Q → R → Bool} : ∀ {rs : List R},
    rs.length = qs.length → (∀ x ∈ qs.zip rs, ok x.1 x.2 = true) → awaited ok qs rs = rs := by
  induction qs with
  | nil =>
    intro rs hlen _
    rw [List.length_nil, List.length_eq_zero_iff] at hlen
    rw [hlen]
    rfl
  | cons q qs ih =>
    intro rs hlen hok
    cases rs with
    | nil => simp at hlen
    | cons r rs =>
      rw [List.zip_cons_cons] at hok
      rw [awaited, if_pos (hok (q, r) (by simp))]
      rw [ih (by simpa using hlen) fun x hx => hok x (List.mem_cons_of_mem _ hx)]

theorem ServeAll.length {S : Q → δ → R → δ → Prop}
    (h : ServeAll S qs d rs d') : rs.length = qs.length := by
  induction h with
  | nil => rfl
  | pick _ hlen _ ih => simp only [List.length_append, List.length_cons] at *; omega

/-- Every request of a batch is served once. -/
theorem ServeAll.exists_reply {S : Q → δ → R → δ → Prop} {q : Q} (h : ServeAll S qs d rs d')
    (hq : q ∈ qs) : ∃ r d₁ d₂, (q, r) ∈ qs.zip rs ∧ S q d₁ r d₂ := by
  induction h with
  | nil => simp at hq
  | @pick qs₁ qs₂ q' rs₁ rs₂ r d d₁ d₂ hs hlen _ ih =>
    rw [List.zip_append hlen.symm, List.zip_cons_cons]
    by_cases hfirst : q = q'
    · subst hfirst
      exact ⟨r, d, d₁, by simp, hs⟩
    · have hrest : q ∈ qs₁ ++ qs₂ := by
        rw [List.mem_append, List.mem_cons] at hq
        rw [List.mem_append]
        exact hq.imp_right fun hq => hq.resolve_left hfirst
      obtain ⟨r', d₃, d₄, hzip, hs'⟩ := ih hrest
      rw [List.zip_append hlen.symm, List.mem_append] at hzip
      refine ⟨r', d₃, d₄, List.mem_append.mpr ?_, hs'⟩
      exact hzip.imp_right (List.mem_cons_of_mem _)

/-- The first request served first. -/
theorem ServeAll.cons {S : Q → δ → R → δ → Prop} {q : Q} {d₁ : δ} {r : R} (hs : S q d r d₁) (h : ServeAll S qs d₁ rs d') :
    ServeAll S (q :: qs) d (r :: rs) d' :=
  @ServeAll.pick _ _ _ S [] qs q [] rs r d d₁ d' hs rfl h

/-- What every single request preserves, a batch preserves. -/
theorem ServeAll.invariant {S : Q → δ → R → δ → Prop} {I : δ → Prop} (h : ServeAll S qs d rs d')
    (step : ∀ q ∈ qs, ∀ d r d₁, I d → S q d r d₁ → I d₁) : I d → I d' := by
  induction h with
  | nil => exact id
  | pick hs _ _ ih =>
    intro hd
    refine ih ?_ (step _ (by simp) _ _ _ hd hs)
    intro q hq
    exact step q (by
      rcases List.mem_append.mp hq with h | h
      · exact List.mem_append_left _ h
      · exact List.mem_append_right _ (List.mem_cons_of_mem _ h))

/-- Only how the requests of the batch are served matters. -/
theorem ServeAll.restrict {S T : Q → δ → R → δ → Prop}
    (h : ServeAll S qs d rs d') (hST : ∀ q ∈ qs, ∀ d r d', S q d r d' → T q d r d') :
    ServeAll T qs d rs d' := by
  induction h with
  | nil d => exact .nil d
  | pick hs hlen _ ih =>
    refine .pick (hST _ (by simp) _ _ _ hs) hlen (ih fun q hq => hST q ?_)
    rcases List.mem_append.mp hq with hq | hq
    · exact List.mem_append_left _ hq
    · exact List.mem_append_right _ (List.mem_cons_of_mem _ hq)

theorem ServeAll.mono {S T : Q → δ → R → δ → Prop} (hST : ∀ q d r d', S q d r d' → T q d r d') (h : ServeAll S qs d rs d') :
    ServeAll T qs d rs d' :=
  h.restrict fun q _ => hST q

@[simp] theorem serveAll_nil {S : Q → δ → R → δ → Prop} :
    ServeAll S [] d rs d' ↔ rs = [] ∧ d' = d := by
  refine ⟨?_, ?_⟩
  · intro h
    generalize hqs : ([] : List Q) = qs at h
    cases h with
    | nil => exact ⟨rfl, rfl⟩
    | pick => simp at hqs
  · rintro ⟨hrs, hd⟩
    subst hrs
    subst hd
    exact .nil d'

@[simp] theorem serveAll_singleton {S : Q → δ → R → δ → Prop} {q : Q} :
    ServeAll S [q] d rs d' ↔ ∃ r, rs = [r] ∧ S q d r d' := by
  refine ⟨?_, ?_⟩
  · intro h
    generalize hqs : [q] = qs at h
    cases h with
    | nil => simp at hqs
    | @pick qs₁ qs₂ _ rs₁ rs₂ r _ d₁ _ hs hlen htail =>
      cases qs₁ with
      | cons a l => simp at hqs
      | nil =>
        simp only [List.nil_append, List.cons.injEq] at hqs
        obtain ⟨hq, hqs₂⟩ := hqs
        subst hq
        subst hqs₂
        simp only [List.length_nil, List.length_eq_zero_iff] at hlen
        subst hlen
        simp only [List.append_nil, List.nil_append, serveAll_nil] at htail
        obtain ⟨hrs, hd⟩ := htail
        subst hrs
        subst hd
        exact ⟨r, rfl, hs⟩
  · rintro ⟨r, hrs, hs⟩
    subst hrs
    exact .cons hs (.nil d')

/-! ### A task running alone -/

/-- The task started in `w` can end with the result `b` in `w'`. -/
def Runs (S : Q → δ → R → δ → Prop) : Co σ Q R α → World σ δ → α → World σ δ → Prop
  | ret a, w, b, w' => b = a ∧ w' = w
  | get k, w, b, w' => Runs S (k w.c) w b w'
  | set s k, w, b, w' => Runs S k ⟨s, w.d⟩ b w'
  | choose k, w, b, w' => ∃ n, Runs S (k n) w b w'
  | io qs ok k, w, b, w' =>
    ∃ rs d, ServeAll S qs w.d rs d ∧ Runs S (k (awaited ok qs rs)) ⟨w.c, d⟩ b w'

section

variable {S : Q → δ → R → δ → Prop} {w w' : World σ δ}

variable {a : α} {f : α → Co σ Q R β} {x : Co σ Q R α} {T : Q → δ → R → δ → Prop}
  {mark : World σ δ → Prop}

@[simp] theorem runs_ret {b : α} : Runs S (ret a : Co σ Q R α) w b w' ↔ b = a ∧ w' = w :=
  Iff.rfl

/-- A task that is two tasks in a row runs the first to its end and then the second. -/
@[simp] theorem runs_bind {b : β} :
    Runs S (x.bind f) w b w' ↔ ∃ a w₁, Runs S x w a w₁ ∧ Runs S (f a) w₁ b w' := by
  induction x generalizing w with
  | ret a =>
    refine ⟨?_, ?_⟩
    · intro h
      exact ⟨a, w, ⟨rfl, rfl⟩, h⟩
    · rintro ⟨a', w₁, ⟨ha, hw⟩, h⟩
      subst ha
      subst hw
      exact h
  | get k ih => exact ih w.c
  | set s k ih => exact ih
  | choose k ih =>
    simp only [bind, Runs, ih]
    refine ⟨?_, ?_⟩
    · rintro ⟨n, a, w₁, hx, hf⟩
      exact ⟨a, w₁, ⟨n, hx⟩, hf⟩
    · rintro ⟨a, w₁, ⟨n, hx⟩, hf⟩
      exact ⟨n, a, w₁, hx, hf⟩
  | io qs ok k ih =>
    simp only [bind, Runs, ih]
    refine ⟨?_, ?_⟩
    · rintro ⟨rs, d, hs, a, w₁, hx, hf⟩
      exact ⟨a, w₁, ⟨rs, d, hs, hx⟩, hf⟩
    · rintro ⟨a, w₁, ⟨rs, d, hs, hx⟩, hf⟩
      exact ⟨rs, d, hs, a, w₁, hx, hf⟩

@[simp] theorem runs_read {s : σ} :
    Runs S (read : Co σ Q R σ) w s w' ↔ s = w.c ∧ w' = w := Iff.rfl

@[simp] theorem runs_modify {f : σ → σ} {u : Unit} :
    Runs S (modify f : Co σ Q R Unit) w u w' ↔ w' = ⟨f w.c, w.d⟩ := by
  simp [modify, Runs]

@[simp] theorem runs_draw {n : Nat} : Runs S (draw : Co σ Q R Nat) w n w' ↔ w' = w := by
  simp [draw, Runs]

@[simp] theorem runs_call [Inhabited R] {q : Q} {r : R} :
    Runs S (call q : Co σ Q R R) w r w' ↔ S q w.d r w'.d ∧ w'.c = w.c := by
  simp only [call, Runs, serveAll_singleton]
  refine ⟨?_, ?_⟩
  · rintro ⟨rs, d, ⟨r', hrs, hs⟩, hr, hw⟩
    subst hrs
    subst hw
    simp only [awaited, if_true, List.headD_cons] at hr
    subst hr
    exact ⟨hs, rfl⟩
  · rintro ⟨hs, hc⟩
    refine ⟨[r], w'.d, ⟨r, rfl, hs⟩, by simp [awaited], ?_⟩
    rw [← hc]

@[simp] theorem runs_callAll {ok : Q → R → Bool} {qs : List Q} {rs : List R} :
    Runs S (callAll ok qs : Co σ Q R (List R)) w rs w' ↔
      ∃ all, rs = awaited ok qs all ∧ ServeAll S qs w.d all w'.d ∧ w'.c = w.c := by
  simp only [callAll, Runs]
  refine ⟨?_, ?_⟩
  · rintro ⟨all, d, hs, hr, hw⟩
    subst hw
    exact ⟨all, hr, hs, rfl⟩
  · rintro ⟨all, hr, hs, hc⟩
    refine ⟨all, w'.d, hs, hr, ?_⟩
    rw [← hc]

theorem runs_shuffleFuel (n : Nat) :
    ∀ {l l' : List α}, Runs S (shuffleFuel n l : Co σ Q R (List α)) w l' w' →
      l'.Perm l ∧ w' = w := by
  induction n with
  | zero =>
    rintro l l' ⟨hl, hw⟩
    exact ⟨hl ▸ List.Perm.refl _, hw⟩
  | succ n ih =>
    rintro l l' ⟨i, h⟩
    beta_reduce at h
    generalize hj : i % l.length = j at h
    cases hget : l[j]? with
    | none =>
      rw [hget] at h
      exact ⟨h.1 ▸ List.Perm.refl _, h.2⟩
    | some a =>
      rw [hget] at h
      simp only [runs_bind, runs_ret] at h
      obtain ⟨rest, w₁, hrest, hl, hw⟩ := h
      subst hl
      subst hw
      obtain ⟨hperm, hw₁⟩ := ih hrest
      obtain ⟨hlt, hval⟩ := List.getElem?_eq_some_iff.mp hget
      refine ⟨?_, hw₁⟩
      subst hval
      exact (hperm.cons _).trans (List.getElem_cons_eraseIdx_perm hlt)

/-- A shuffle is some permutation and touches nothing. -/
theorem runs_shuffle {l l' : List α} (h : Runs S (shuffle l : Co σ Q R (List α)) w l' w') :
    l'.Perm l ∧ w' = w :=
  runs_shuffleFuel l.length h

/-- It may leave the list as it is. -/
theorem runs_shuffle_self (l : List α) : Runs S (shuffle l : Co σ Q R (List α)) w l w := by
  have hfuel : ∀ (n : Nat) (l : List α), n = l.length →
      Runs S (shuffleFuel n l : Co σ Q R (List α)) w l w := by
    intro n
    induction n with
    | zero =>
      intro l hn
      rw [List.eq_nil_of_length_eq_zero hn.symm]
      exact ⟨rfl, rfl⟩
    | succ n ih =>
      intro l hn
      cases l with
      | nil => simp at hn
      | cons a l =>
        refine ⟨0, ?_⟩
        beta_reduce
        rw [Nat.zero_mod, List.getElem?_cons_zero, List.eraseIdx_cons_zero]
        simp only [runs_bind, runs_ret]
        exact ⟨l, w, ih l (by simpa using hn), rfl, rfl⟩
  exact hfuel l.length l rfl

/-- A task served more freely has more runs. -/
theorem Runs.mono (hST : ∀ q d r d', S q d r d' → T q d r d') (h : Runs S x w a w') : Runs T x w a w' := by
  induction x generalizing w with
  | ret b => exact h
  | get k ih => exact ih w.c h
  | set s k ih => exact ih h
  | choose k ih =>
    obtain ⟨n, h⟩ := h
    exact ⟨n, ih n h⟩
  | io qs ok k ih =>
    obtain ⟨rs, d, hs, h⟩ := h
    exact ⟨rs, d, hs.mono hST, ih _ h⟩

/-- What every single request preserves, a task preserves. -/
theorem Runs.invariant {I : δ → Prop} (step : ∀ q d r d', I d → S q d r d' → I d')
    (h : Runs S x w a w') : I w.d → I w'.d := by
  induction x generalizing w with
  | ret b =>
    intro hw
    rw [h.2]
    exact hw
  | get k ih => exact ih w.c h
  | set s k ih => exact ih (w := ⟨s, w.d⟩) h
  | choose k ih =>
    obtain ⟨n, h⟩ := h
    exact ih n h
  | io qs ok k ih =>
    obtain ⟨rs, d, hs, h⟩ := h
    exact fun hw => ih _ h (hs.invariant (fun q _ => step q) hw)

/-! ### The log of a run -/

/-- As `S`, where the server also notes every request with its reply. -/
def Logged (S : Q → δ → R → δ → Prop) (q : Q) (d : δ × List (Q × R)) (r : R)
    (d' : δ × List (Q × R)) : Prop :=
  S q d.1 r d'.1 ∧ d'.2 = d.2 ++ [(q, r)]

/-- A batch adds its requests to the log, in the order in which they were served. -/
theorem ServeAll.log {d d' : δ × List (Q × R)} (h : ServeAll (Logged S) qs d rs d') :
    ∃ l, d'.2 = d.2 ++ l ∧ l.Perm (qs.zip rs) := by
  induction h with
  | nil => exact ⟨[], by simp, by simp⟩
  | @pick qs₁ qs₂ q rs₁ rs₂ r d d₁ d₂ hs hlen _ ih =>
    obtain ⟨l, hl, hperm⟩ := ih
    rw [List.zip_append hlen.symm] at hperm
    refine ⟨(q, r) :: l, by rw [hl, hs.2, List.append_assoc, List.singleton_append], ?_⟩
    rw [List.zip_append hlen.symm, List.zip_cons_cons]
    exact (hperm.cons _).trans List.perm_middle.symm

theorem ServeAll.exists_logged (h : ServeAll S qs d rs d') :
    ∀ l, ∃ l', ServeAll (Logged S) qs (d, l) rs (d', l') := by
  induction h with
  | nil d => exact fun l => ⟨l, .nil _⟩
  | @pick qs₁ qs₂ q rs₁ rs₂ r d d₁ d₂ hs hlen _ ih =>
    intro l
    obtain ⟨l', h⟩ := ih (l ++ [(q, r)])
    exact ⟨l', .pick ⟨hs, rfl⟩ hlen h⟩

/-- The log takes nothing away: every run is the run of some log. -/
theorem Runs.exists_logged (h : Runs S x w a w') :
    ∀ l, ∃ l', Runs (Logged S) x ⟨w.c, w.d, l⟩ a ⟨w'.c, w'.d, l'⟩ := by
  induction x generalizing w with
  | ret b => exact fun l => ⟨l, h.1, by rw [h.2]⟩
  | get k ih => exact ih w.c h
  | set s k ih => exact ih (w := ⟨s, w.d⟩) h
  | choose k ih =>
    obtain ⟨n, h⟩ := h
    intro l
    obtain ⟨l', h'⟩ := ih n h l
    exact ⟨l', n, h'⟩
  | io qs ok k ih =>
    obtain ⟨rs, d, hs, h⟩ := h
    intro l
    obtain ⟨l₁, hs₁⟩ := hs.exists_logged l
    obtain ⟨l', h'⟩ := ih _ h l₁
    exact ⟨l', rs, _, hs₁, h'⟩

/-! ### The requests of a task -/

/-- Every request the task can send satisfies `P`. -/
def SendsOnly (P : Q → Prop) : Co σ Q R α → Prop
  | ret _ => True
  | get k => ∀ s, SendsOnly P (k s)
  | set _ k => SendsOnly P k
  | choose k => ∀ n, SendsOnly P (k n)
  | io qs _ k => (∀ q ∈ qs, P q) ∧ ∀ rs, SendsOnly P (k rs)

theorem sendsOnly_bind {P : Q → Prop}
    (hx : SendsOnly P x) (hf : ∀ a, SendsOnly P (f a)) : SendsOnly P (x.bind f) := by
  induction x with
  | ret a => exact hf a
  | get k ih => exact fun s => ih s (hx s)
  | set s k ih => exact ih hx
  | choose k ih => exact fun n => ih n (hx n)
  | io qs ok k ih => exact ⟨hx.1, fun rs => ih rs (hx.2 rs)⟩

theorem sendsOnly_shuffle {P : Q → Prop} (l : List α) :
    SendsOnly P (shuffle l : Co σ Q R (List α)) := by
  have hfuel : ∀ (n : Nat) (l : List α), SendsOnly P (shuffleFuel n l : Co σ Q R (List α)) := by
    intro n
    induction n with
    | zero => exact fun _ => trivial
    | succ n ih =>
      intro l i
      beta_reduce
      cases l[i % l.length]? with
      | none => trivial
      | some a => exact sendsOnly_bind (ih _) fun _ => trivial
  exact hfuel l.length l

/-- How other requests would be served does not matter to the task. -/
theorem Runs.restrict {P : Q → Prop} (hST : ∀ q d r d', P q → S q d r d' → T q d r d')
    (hx : SendsOnly P x) (h : Runs S x w a w') : Runs T x w a w' := by
  induction x generalizing w with
  | ret b => exact h
  | get k ih => exact ih w.c (hx w.c) h
  | set s k ih => exact ih hx h
  | choose k ih =>
    obtain ⟨n, h⟩ := h
    exact ⟨n, ih n (hx n) h⟩
  | io qs ok k ih =>
    obtain ⟨rs, d, hs, h⟩ := h
    exact ⟨rs, d, hs.restrict fun q hq d r d' => hST q d r d' (hx.1 q hq), ih _ (hx.2 _) h⟩

/-- The task sends this batch, and nothing after it. -/
def SendsBatch (qs : List Q) : Co σ Q R α → Prop
  | io qs' _ k => qs' = qs ∧ ∀ rs, SendsOnly (fun _ => False) (k rs)
  | _ => False

/-! ### Relations that every run keeps -/

/-- Every run of the task relates the world it starts in to the one it ends in. -/
def Keeps (S : Q → δ → R → δ → Prop) (P : World σ δ → World σ δ → Prop) (x : Co σ Q R α) : Prop :=
  ∀ w a w', Runs S x w a w' → P w w'

section

variable {P : World σ δ → World σ δ → Prop} (hrefl : ∀ w, P w w)
  (htrans : ∀ w₁ w₂ w₃, P w₁ w₂ → P w₂ w₃ → P w₁ w₃)

include htrans in
theorem keeps_bind {x : Co σ Q R α} {f : α → Co σ Q R β} (hx : Keeps S P x)
    (hf : ∀ a, Keeps S P (f a)) : Keeps S P (x.bind f) := by
  intro w b w' h
  obtain ⟨a, w₁, h₁, h₂⟩ := runs_bind.mp h
  exact htrans _ _ _ (hx _ _ _ h₁) (hf a _ _ _ h₂)

include hrefl in
theorem keeps_ret (a : α) : Keeps S P (ret a : Co σ Q R α) := by
  rintro w b w' ⟨_, hw⟩
  rw [hw]
  exact hrefl w

end

/-- A run that is not served as `T` says leaves a mark. -/
def Tells (S T : Q → δ → R → δ → Prop) (mark : World σ δ → Prop) (x : Co σ Q R α) : Prop :=
  ∀ w a w', Runs S x w a w' → mark w' ∨ Runs T x w a w'

theorem tells_of_sendsOnly {P : Q → Prop}
    (hST : ∀ q d r d', P q → S q d r d' → T q d r d') (hx : SendsOnly P x) :
    Tells S T mark x :=
  fun _ _ _ h => Or.inr (h.restrict hST hx)

/-- A task in front whose requests are all served so leaves no mark. -/
theorem tells_bind_of_sendsOnly {P : Q → Prop} (hST : ∀ q d r d', P q → S q d r d' → T q d r d') (hx : SendsOnly P x)
    (hf : ∀ a, Tells S T mark (f a)) : Tells S T mark (x.bind f) := by
  intro w b w' h
  obtain ⟨a, w₁, h₁, h₂⟩ := runs_bind.mp h
  exact (hf a _ _ _ h₂).imp id fun hf' => runs_bind.mpr ⟨a, w₁, h₁.restrict hST hx, hf'⟩

/-- What comes behind must not wipe the mark away. -/
theorem tells_bind (hx : Tells S T mark x) (hf : ∀ a, Tells S T mark (f a))
    (hkeeps : ∀ a, Keeps S (fun w w' => mark w → mark w') (f a)) : Tells S T mark (x.bind f) := by
  intro w b w' h
  obtain ⟨a, w₁, h₁, h₂⟩ := runs_bind.mp h
  rcases hx _ _ _ h₁ with hmark | hx'
  · exact Or.inl (hkeeps a _ _ _ h₂ hmark)
  · rcases hf a _ _ _ h₂ with hmark | hf'
    · exact Or.inl hmark
    · exact Or.inr (runs_bind.mpr ⟨a, w₁, hx', hf'⟩)

end

/-! ### Running against a script -/

section

variable [Inhabited ε] (serve : ε → Q → δ → R × δ)

/-- A batch served in the order it was sent, with one outcome of the script each. -/
def serveScript : List ε → List Q → δ → List R × δ × List ε
  | es, [], d => ([], d, es)
  | es, q :: qs, d =>
    let (r, d₁) := serve (es.headD default) q d
    let (rs, d₂, rest) := serveScript es.tail qs d₁
    (r :: rs, d₂, rest)

/-- The task run with the open values and the server's outcomes taken from two lists. -/
def exec : Co σ Q R α → List Nat → List ε → World σ δ → α × World σ δ
  | ret a, _, _, w => (a, w)
  | get k, ns, es, w => exec (k w.c) ns es w
  | set s k, ns, es, w => exec k ns es ⟨s, w.d⟩
  | choose k, ns, es, w => exec (k (ns.headD 0)) ns.tail es w
  | io qs ok k, ns, es, w =>
    let (rs, d, rest) := serveScript serve es qs w.d
    exec (k (awaited ok qs rs)) ns rest ⟨w.c, d⟩

/-- The server answers with one of the outcomes `serve` has. -/
def Serves (q : Q) (d : δ) (r : R) (d' : δ) : Prop := ∃ e, serve e q d = (r, d')

variable (check : ε → Q → δ → Bool)

/-- Every outcome the batch takes from the script passes the check. -/
def checkScript : List ε → List Q → δ → Bool
  | _, [], _ => true
  | es, q :: qs, d =>
    check (es.headD default) q d &&
      checkScript es.tail qs (serve (es.headD default) q d).2

/-- Every outcome the task takes from the script passes the check. -/
def checkExec : Co σ Q R α → List Nat → List ε → World σ δ → Bool
  | ret _, _, _, _ => true
  | get k, ns, es, w => checkExec (k w.c) ns es w
  | set s k, ns, es, w => checkExec k ns es ⟨s, w.d⟩
  | choose k, ns, es, w => checkExec (k (ns.headD 0)) ns.tail es w
  | io qs ok k, ns, es, w =>
    checkScript serve check es qs w.d &&
      checkExec (k (awaited ok qs (serveScript serve es qs w.d).1)) ns
        (serveScript serve es qs w.d).2.2 ⟨w.c, (serveScript serve es qs w.d).2.1⟩

variable {serve check} {S : Q → δ → R → δ → Prop}
  (hS : ∀ e q d, check e q d = true → S q d (serve e q d).1 (serve e q d).2)

include hS

theorem serveAll_serveScript (qs : List Q) : ∀ (es : List ε) (d : δ),
    checkScript serve check es qs d = true →
      ServeAll S qs d (serveScript serve es qs d).1 (serveScript serve es qs d).2.1 := by
  induction qs with
  | nil =>
    intro es d _
    exact .nil d
  | cons q qs ih =>
    intro es d h
    rw [checkScript, Bool.and_eq_true] at h
    exact .cons (hS _ _ _ h.1) (ih es.tail _ h.2)

/-- What a script produces is a run, served as the check says. -/
theorem runs_exec (x : Co σ Q R α) (ns : List Nat) (es : List ε) (w : World σ δ)
    (h : checkExec serve check x ns es w = true) :
    Runs S x w (exec serve x ns es w).1 (exec serve x ns es w).2 := by
  induction x generalizing ns es w with
  | ret a => exact ⟨rfl, rfl⟩
  | get k ih => exact ih w.c ns es w h
  | set s k ih => exact ih ns es _ h
  | choose k ih => exact ⟨ns.headD 0, ih _ ns.tail es w h⟩
  | io qs ok k ih =>
    rw [checkExec, Bool.and_eq_true] at h
    exact ⟨_, _, serveAll_serveScript hS qs es w.d h.1, ih _ ns _ _ h.2⟩

end

end Co

end IowarpCore
