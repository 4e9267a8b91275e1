/-
Tasks that take turns at their awaits.

A task runs from one await to the next without interruption (`Reaches`).  While it waits,
the requests it sent are served one by one, in any order, and other tasks run.  It may go
on as soon as the replies it awaits are there, which after a reply that is not `ok` can
be before the rest of the batch was served; what is left of the batch is then loose,
served at some time with nobody looking.  `Moves` is one step of such a pool of tasks.

`Pool.act` takes such steps from a script, and `moves_act` says that they are steps.
-/
import IowarpCore.Lib.Coroutine

namespace IowarpCore
namespace Co

variable {τ σ δ Q R α ε : Type}

/-- Where a task that was started stands: at an await, with the requests it sent and the
replies that are there, or at its end. -/
inductive Thread (σ Q R α : Type) where
  | waiting (sent : List (Q × Option R)) (ok : Q → R → Bool) (k : List R → Co σ Q R α)
  | done (a : α)

/-- Run to the next await or to the end.  Sending no request is no await. -/
def Reaches : Co σ Q R α → σ → Thread σ Q R α → σ → Prop
  | ret a, s, th, s' => th = .done a ∧ s' = s
  | get k, s, th, s' => Reaches (k s) s th s'
  | set s₁ k, _, th, s' => Reaches k s₁ th s'
  | choose k, s, th, s' => ∃ n, Reaches (k n) s th s'
  | io [] _ k, s, th, s' => Reaches (k []) s th s'
  | io (q :: qs) ok k, s, th, s' =>
    th = .waiting ((q :: qs).map fun q => (q, none)) ok k ∧ s' = s

section

variable {β : Type} {s s' : σ} {th : Thread σ Q R β}

@[simp] theorem reaches_ret {b : β} :
    Reaches (ret b : Co σ Q R β) s th s' ↔ th = .done b ∧ s' = s := Iff.rfl

@[simp] theorem reaches_read_bind {f : σ → Co σ Q R β} :
    Reaches ((read : Co σ Q R σ).bind f) s th s' ↔ Reaches (f s) s th s' := Iff.rfl

@[simp] theorem reaches_modify_bind {g : σ → σ} {f : Unit → Co σ Q R β} :
    Reaches ((modify g : Co σ Q R Unit).bind f) s th s' ↔ Reaches (f ()) (g s) th s' := Iff.rfl

@[simp] theorem reaches_call_bind [Inhabited R] {q : Q} {f : R → Co σ Q R β} :
    Reaches ((call q : Co σ Q R R).bind f) s th s' ↔
      th = .waiting [(q, none)] (fun _ _ => true) (fun rs => f (rs.headD default)) ∧ s' = s :=
  Iff.rfl

end

/-- The replies up to the first that is not `ok`, once they are all there. -/
def heard (ok : Q → R → Bool) : List (Q × Option R) → Option (List R)
  | [] => some []
  | (_, none) :: _ => none
  | (q, some r) :: rest => if ok q r then (heard ok rest).map (r :: ·) else some [r]

/-- The requests of a batch that were not served yet. -/
def unserved (sent : List (Q × Option R)) : List Q :=
  (sent.filter fun x => x.2.isNone).map Prod.fst

/-- The tasks that were started, each with what it is, and the requests nobody waits for. -/
structure Pool (τ σ δ Q R α : Type) where
  world : World σ δ
  threads : List (τ × Thread σ Q R α)
  loose : List Q

/-- What can happen next: a task is started, a request of the task at a place is served,
the task at a place goes on, a loose request is served. -/
inductive Move (τ : Type) where
  | start (t : τ)
  | serve (i : Nat)
  | resume (i : Nat)
  | settle

inductive Moves (S : Q → δ → R → δ → Prop) (prog : τ → Co σ Q R α) :
    Move τ → Pool τ σ δ Q R α → Pool τ σ δ Q R α → Prop
  | start {w : World σ δ} {ths : List (τ × Thread σ Q R α)} {loose : List Q} {t : τ}
      {th : Thread σ Q R α} {s' : σ} : Reaches (prog t) w.c th s' →
      Moves S prog (.start t) ⟨w, ths, loose⟩ ⟨⟨s', w.d⟩, ths ++ [(t, th)], loose⟩
  | serve {w : World σ δ} {pre post : List (τ × Thread σ Q R α)} {loose : List Q} {t : τ}
      {before after : List (Q × Option R)} {q : Q} {r : R} {ok : Q → R → Bool}
      {k : List R → Co σ Q R α} {d' : δ} : S q w.d r d' →
      Moves S prog (.serve pre.length)
        ⟨w, pre ++ (t, .waiting (before ++ (q, none) :: after) ok k) :: post, loose⟩
        ⟨⟨w.c, d'⟩, pre ++ (t, .waiting (before ++ (q, some r) :: after) ok k) :: post, loose⟩
  | resume {w : World σ δ} {pre post : List (τ × Thread σ Q R α)} {loose : List Q} {t : τ}
      {sent : List (Q × Option R)} {rs : List R} {ok : Q → R → Bool} {k : List R → Co σ Q R α}
      {th : Thread σ Q R α} {s' : σ} : heard ok sent = some rs → Reaches (k rs) w.c th s' →
      Moves S prog (.resume pre.length)
        ⟨w, pre ++ (t, .waiting sent ok k) :: post, loose⟩
        ⟨⟨s', w.d⟩, pre ++ (t, th) :: post, loose ++ unserved sent⟩
  | settle {w : World σ δ} {ths : List (τ × Thread σ Q R α)} {before after : List Q} {q : Q}
      {r : R} {d' : δ} : S q w.d r d' →
      Moves S prog .settle ⟨w, ths, before ++ q :: after⟩ ⟨⟨w.c, d'⟩, ths, before ++ after⟩

/-- The place of the task that runs in a step. -/
def Move.place (p : Pool τ σ δ Q R α) : Move τ → Option Nat
  | .start _ => some p.threads.length
  | .resume i => some i
  | .serve _ | .settle => none

/-- The task that ended in a step from `p` to `p'`, with its result. -/
def finished (m : Move τ) (p p' : Pool τ σ δ Q R α) : Option (τ × α) :=
  match m.place p with
  | none => none
  | some i =>
    match p'.threads[i]? with
    | some (t, .done a) => some (t, a)
    | _ => none

section

variable {S : Q → δ → R → δ → Prop} {prog : τ → Co σ Q R α} {m : Move τ} {p p' : Pool τ σ δ Q R α}

/-- A thread after a step was there before, or the step ran it. -/
theorem Moves.thread_cases (h : Moves S prog m p p') {x : τ × Thread σ Q R α}
    (hx : x ∈ p'.threads) :
    x ∈ p.threads ∨ (∃ sent ok k, (x.1, .waiting sent ok k) ∈ p.threads) ∨
      (m = .start x.1 ∧ Reaches (prog x.1) p.world.c x.2 p'.world.c) := by
  cases h with
  | start hreach =>
    rcases List.mem_append.mp hx with hx | hx
    · exact .inl hx
    · rw [List.mem_singleton.mp hx]
      exact .inr (.inr ⟨rfl, hreach⟩)
  | serve hs =>
    rcases List.mem_append.mp hx with hx | hx
    · exact .inl (List.mem_append_left _ hx)
    · rcases List.mem_cons.mp hx with hx | hx
      · rw [hx]
        exact .inr (.inl ⟨_, _, _, List.mem_append_right _ List.mem_cons_self⟩)
      · exact .inl (List.mem_append_right _ (List.mem_cons_of_mem _ hx))
  | resume hheard hreach =>
    rcases List.mem_append.mp hx with hx | hx
    · exact .inl (List.mem_append_left _ hx)
    · rcases List.mem_cons.mp hx with hx | hx
      · rw [hx]
        exact .inr (.inl ⟨_, _, _, List.mem_append_right _ List.mem_cons_self⟩)
      · exact .inl (List.mem_append_right _ (List.mem_cons_of_mem _ hx))
  | settle _ => exact .inl hx

/-- A task that ended was started in this step or waited before it. -/
theorem Moves.finished_cases (h : Moves S prog m p p') {x : τ × α}
    (hx : finished m p p' = some x) :
    m = .start x.1 ∨ ∃ sent ok k, (x.1, .waiting sent ok k) ∈ p.threads := by
  cases h with
  | @start w ths loose t th s' hreach =>
    cases th with
    | waiting sent ok k => simp [finished, Move.place] at hx
    | done a =>
      simp only [finished, Move.place, List.getElem?_concat_length, Option.some.injEq] at hx
      rw [← hx]
      exact .inl rfl
  | serve hs => simp [finished, Move.place] at hx
  | @resume w pre post loose t sent rs ok k th s' hheard hreach =>
    cases th with
    | waiting sent' ok' k' => simp [finished, Move.place] at hx
    | done a =>
      simp only [finished, Move.place, List.getElem?_append_right, Nat.le_refl, Nat.sub_self,
        List.getElem?_cons_zero, Option.some.injEq] at hx
      rw [← hx]
      exact .inr ⟨sent, ok, k, by simp⟩
  | settle _ => simp [finished, Move.place] at hx

end

/-! ### Steps from a script -/

/-- Run to the next await with the open values taken from a list. -/
def advance : Co σ Q R α → List Nat → σ → Thread σ Q R α × σ
  | ret a, _, s => (.done a, s)
  | get k, ns, s => advance (k s) ns s
  | set s₁ k, ns, _ => advance k ns s₁
  | choose k, ns, s => advance (k (ns.headD 0)) ns.tail s
  | io [] _ k, ns, s => advance (k []) ns s
  | io (q :: qs) ok k, _, s => (.waiting ((q :: qs).map fun q => (q, none)) ok k, s)

theorem reaches_advance (x : Co σ Q R α) (ns : List Nat) (s : σ) :
    Reaches x s (advance x ns s).1 (advance x ns s).2 := by
  induction x generalizing ns s with
  | ret a => exact ⟨rfl, rfl⟩
  | get k ih => exact ih s ns s
  | set s₁ k ih => exact ih ns s₁
  | choose k ih => exact ⟨ns.headD 0, ih _ ns.tail s⟩
  | io qs ok k ih =>
    cases qs with
    | nil => exact ih [] ns s
    | cons q qs => exact ⟨rfl, rfl⟩

/-- A step with everything it leaves open. -/
inductive Act (τ ε : Type) where
  | start (t : τ) (ns : List Nat)
  | serve (i j : Nat) (e : ε)
  | resume (i : Nat) (ns : List Nat)
  | settle (j : Nat) (e : ε)

def Act.move : Act τ ε → Move τ
  | start t _ => .start t
  | serve i _ _ => .serve i
  | resume i _ => .resume i
  | settle _ _ => .settle

/-- The step, if there is such a step. -/
def Pool.act (serve : ε → Q → δ → R × δ) (prog : τ → Co σ Q R α) (p : Pool τ σ δ Q R α) :
    Act τ ε → Option (Pool τ σ δ Q R α)
  | .start t ns =>
    let (th, s') := advance (prog t) ns p.world.c
    some ⟨⟨s', p.world.d⟩, p.threads ++ [(t, th)], p.loose⟩
  | .serve i j e =>
    match p.threads[i]? with
    | some (t, .waiting sent ok k) =>
      match sent[j]? with
      | some (q, none) =>
        let (r, d') := serve e q p.world.d
        some ⟨⟨p.world.c, d'⟩,
          p.threads.take i ++ (t, .waiting (sent.take j ++ (q, some r) :: sent.drop (j + 1)) ok k)
            :: p.threads.drop (i + 1), p.loose⟩
      | _ => none
    | _ => none
  | .resume i ns =>
    match p.threads[i]? with
    | some (t, .waiting sent ok k) =>
      match heard ok sent with
      | some rs =>
        let (th, s') := advance (k rs) ns p.world.c
        some ⟨⟨s', p.world.d⟩, p.threads.take i ++ (t, th) :: p.threads.drop (i + 1),
          p.loose ++ unserved sent⟩
      | none => none
    | _ => none
  | .settle j e =>
    match p.loose[j]? with
    | some q => some ⟨⟨p.world.c, (serve e q p.world.d).2⟩, p.threads,
        p.loose.take j ++ p.loose.drop (j + 1)⟩
    | none => none

theorem split_at_getElem? {β : Type} {l : List β} {i : Nat} {b : β} (h : l[i]? = some b) :
    (l.take i).length = i ∧ l = l.take i ++ b :: l.drop (i + 1) := by
  obtain ⟨hlt, hb⟩ := List.getElem?_eq_some_iff.mp h
  refine ⟨List.length_take_of_le (Nat.le_of_lt hlt), ?_⟩
  rw [← hb, List.getElem_cons_drop, List.take_append_drop]

theorem moves_act {serve : ε → Q → δ → R × δ} {prog : τ → Co σ Q R α} {p p' : Pool τ σ δ Q R α}
    {a : Act τ ε} (h : p.act serve prog a = some p') : Moves (Serves serve) prog a.move p p' := by
  obtain ⟨w, ths, loose⟩ := p
  cases a with
  | start t ns =>
    rw [Pool.act, Option.some.injEq] at h
    rw [← h]
    exact .start (reaches_advance _ _ _)
  | serve i j e =>
    rw [Pool.act] at h
    dsimp only at h
    cases hi : ths[i]? with
    | none =>
      rw [hi] at h
      simp at h
    | some x =>
      obtain ⟨t, th⟩ := x
      cases th with
      | done a =>
        rw [hi] at h
        simp at h
      | waiting sent ok k =>
        rw [hi] at h
        dsimp only at h
        cases hj : sent[j]? with
        | none =>
          rw [hj] at h
          simp at h
        | some y =>
          obtain ⟨q, reply⟩ := y
          cases reply with
          | some r =>
            rw [hj] at h
            simp at h
          | none =>
            rw [hj] at h
            simp only [Option.some.injEq] at h
            obtain ⟨hlen, hths⟩ := split_at_getElem? hi
            obtain ⟨_, hsent⟩ := split_at_getElem? hj
            have hmove := @Moves.serve τ σ δ Q R α (Serves serve) prog w (ths.take i)
              (ths.drop (i + 1)) loose t (sent.take j) (sent.drop (j + 1)) q
              (serve e q w.d).1 ok k (serve e q w.d).2 ⟨e, rfl⟩
            rw [← hsent, ← hths, hlen, h] at hmove
            exact hmove
  | resume i ns =>
    rw [Pool.act] at h
    dsimp only at h
    cases hi : ths[i]? with
    | none =>
      rw [hi] at h
      simp at h
    | some x =>
      obtain ⟨t, th⟩ := x
      cases th with
      | done a =>
        rw [hi] at h
        simp at h
      | waiting sent ok k =>
        rw [hi] at h
        dsimp only at h
        cases hheard : heard ok sent with
        | none =>
          rw [hheard] at h
          simp at h
        | some rs =>
          rw [hheard] at h
          simp only [Option.some.injEq] at h
          obtain ⟨hlen, hths⟩ := split_at_getElem? hi
          have hmove := @Moves.resume τ σ δ Q R α (Serves serve) prog w (ths.take i)
            (ths.drop (i + 1)) loose t sent rs ok k _ _ hheard
            (reaches_advance (k rs) ns w.c)
          rw [← hths, hlen, h] at hmove
          exact hmove
  | settle j e =>
    rw [Pool.act] at h
    dsimp only at h
    cases hj : loose[j]? with
    | none =>
      rw [hj] at h
      simp at h
    | some q =>
      rw [hj] at h
      simp only [Option.some.injEq] at h
      obtain ⟨_, hloose⟩ := split_at_getElem? hj
      have hmove := @Moves.settle τ σ δ Q R α (Serves serve) prog w ths (loose.take j)
        (loose.drop (j + 1)) q (serve e q w.d).1 (serve e q w.d).2 ⟨e, rfl⟩
      rw [← hloose, h] at hmove
      exact hmove

end Co
end IowarpCore
