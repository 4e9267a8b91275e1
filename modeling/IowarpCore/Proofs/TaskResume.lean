/-
Nested coroutines are a call stack.

The frames of the stack form a chain: each but the innermost one awaits the one above it.  An
inner coroutine learns its caller only when it has suspended, so the first `u` frames, which
were called since the worker last resumed the task, have no link yet, and an `await_suspend`
waits on the native stack for each of them (`Runs`).  When the innermost frame suspends, the
native stack unwinds and sets these links one by one (`unwind_suspended`).  A frame without a
link returns to its `await_suspend`, one with a link to its caller directly; either way the
chain gets shorter by one.  `coro_handle_` is the first linked frame while a coroutine runs,
and the innermost one while the task is suspended.
-/
import IowarpCore.Runtime.TaskResume

namespace IowarpCore
namespace Nested

open CallStack (Occurrence)

variable {fs rest : List Handle} {j k u : Nat} {p q : Point} {h r c : Handle}
  {frames frames' : Handle → Option Frame}

/-! ### Chains -/

/-- The caller that a frame knows: those from `k` to `u` do not know theirs yet. -/
def link (fs : List Handle) (k u j : Nat) : Option Handle :=
  if k ≤ j ∧ j < u then none else fs[j + 1]?

/-- Where a frame is if the innermost one is at `p`. -/
def pointAt (fs : List Handle) (p : Point) (h : Handle) : Nat → Point
  | 0 => p
  | j + 1 => .awaiting ⟨fs[j]?, some h⟩

/-- The frames are a chain, and there are no others. -/
structure Chain (fs : List Handle) (k u : Nat) (p : Point) (frames : Handle → Option Frame) : Prop where
  frame : ∀ j h, fs[j]? = some h → frames h = some ⟨⟨true, link fs k u j⟩, pointAt fs p h j⟩
  gone : ∀ h, h ∉ fs → frames h = none

theorem link_unlinked (hlow : k ≤ j) (hhigh : j < u) : link fs k u j = none := if_pos ⟨hlow, hhigh⟩

theorem link_linked (hj : ¬ (k ≤ j ∧ j < u)) : link fs k u j = fs[j + 1]? := if_neg hj

theorem index_unique (hnodup : fs.Nodup) {i : Nat} (hi : fs[i]? = some h) (hj : fs[j]? = some h) :
    i = j := by
  obtain ⟨hlt, -⟩ := List.getElem?_eq_some_iff.mp hi
  exact (List.getElem?_inj hlt hnodup).mp (hi.trans hj.symm)

/-- Nothing is left to link. -/
theorem Chain.linked (hchain : Chain fs u u p frames) : Chain fs 0 0 p frames where
  frame j h hj := by
    rw [hchain.frame j h hj, link_linked (by omega), link_linked (by omega)]
  gone := hchain.gone

/-- The innermost frame comes to another point. -/
theorem Chain.setTop (hchain : Chain (r :: rest) k u p frames) (hnodup : (r :: rest).Nodup)
    (hr : frames' r = some ⟨⟨true, link (r :: rest) k u 0⟩, q⟩)
    (hother : ∀ h, h ≠ r → frames' h = frames h) : Chain (r :: rest) k u q frames' where
  frame j h hj := by
    cases j with
    | zero =>
      obtain rfl := Option.some.inj hj
      exact hr
    | succ j =>
      have hne : h ≠ r := by
        rintro rfl
        exact absurd (index_unique (i := 0) hnodup rfl hj) (Nat.succ_ne_zero j).symm
      rw [hother h hne, hchain.frame (j + 1) h hj]
      rfl
  gone h hh := by
    rw [hother h fun heq => hh (heq ▸ List.mem_cons_self), hchain.gone h hh]

/-- A frame is called. -/
theorem Chain.push (hchain : Chain (r :: rest) 0 u p frames) (hnodup : (c :: r :: rest).Nodup)
    (hc : frames' c = some ⟨⟨true, none⟩, q⟩)
    (hr : frames' r = some ⟨⟨true, link (r :: rest) 0 u 0⟩, .awaiting ⟨some c, some r⟩⟩)
    (hother : ∀ h, h ≠ c → h ≠ r → frames' h = frames h) :
    Chain (c :: r :: rest) 0 (u + 1) q frames' where
  frame j h hj := by
    have hlink : ∀ j, link (c :: r :: rest) 0 (u + 1) (j + 1) = link (r :: rest) 0 u j := fun j => by
      unfold link
      simp only [Nat.zero_le, true_and, Nat.add_lt_add_iff_right, List.getElem?_cons_succ]
    cases j with
    | zero =>
      obtain rfl := Option.some.inj hj
      rw [hc, link_unlinked (Nat.zero_le _) (Nat.succ_pos u)]
      rfl
    | succ j =>
      have hold : (r :: rest)[j]? = some h := hj
      rw [hlink]
      cases j with
      | zero =>
        obtain rfl := Option.some.inj hold
        exact hr
      | succ j =>
        have hnc : h ≠ c := by
          rintro rfl
          exact absurd (index_unique (i := 0) hnodup rfl hj) (Nat.succ_ne_zero _).symm
        have hnr : h ≠ r := by
          rintro rfl
          exact absurd (index_unique (i := 0) (List.nodup_cons.mp hnodup).2 rfl hold)
            (Nat.succ_ne_zero _).symm
        rw [hother h hnc hnr, hchain.frame (j + 1) h hold]
        rfl
  gone h hh := by
    rw [List.mem_cons, not_or] at hh
    rw [hother h hh.1 fun heq => hh.2 (heq ▸ List.mem_cons_self), hchain.gone h hh.2]

/-- The innermost frame is gone, and its caller goes on. -/
theorem Chain.pop (hchain : Chain (r :: c :: rest) 0 u p frames) (hnodup : (r :: c :: rest).Nodup)
    (hr : frames' r = none)
    (hc : frames' c = some ⟨⟨true, link (r :: c :: rest) 0 u 1⟩, q⟩)
    (hother : ∀ h, h ≠ r → h ≠ c → frames' h = frames h) : Chain (c :: rest) 0 (u - 1) q frames' where
  frame j h hj := by
    have hlink : ∀ j, link (r :: c :: rest) 0 u (j + 1) = link (c :: rest) 0 (u - 1) j := fun j => by
      unfold link
      rw [List.getElem?_cons_succ]
      exact if_congr (by omega) rfl rfl
    have hold : (r :: c :: rest)[j + 1]? = some h := hj
    cases j with
    | zero =>
      obtain rfl := Option.some.inj hj
      rw [hc, hlink]
      rfl
    | succ j =>
      have hnr : h ≠ r := by
        rintro rfl
        exact absurd (index_unique (i := 0) hnodup rfl hold) (Nat.succ_ne_zero _).symm
      have hnc : h ≠ c := by
        rintro rfl
        exact absurd (index_unique (i := 0) (List.nodup_cons.mp hnodup).2 rfl hj)
          (Nat.succ_ne_zero _).symm
      rw [hother h hnr hnc, hchain.frame (j + 2) h hold, hlink]
      rfl
  gone h hh := by
    by_cases hhr : h = r
    · rw [hhr, hr]
    · rw [hother h hhr fun heq => hh (heq ▸ List.mem_cons_self),
        hchain.gone h (by rw [List.mem_cons, not_or]; exact ⟨hhr, hh⟩)]

/-- A frame learns its caller. -/
theorem Chain.setLink (hchain : Chain fs k u p frames) (hnodup : fs.Nodup) (hk : fs[k]? = some h)
    (hh : frames' h = some ⟨⟨true, fs[k + 1]?⟩, pointAt fs p h k⟩)
    (hother : ∀ h', h' ≠ h → frames' h' = frames h') : Chain fs (k + 1) u p frames' where
  frame j h' hj := by
    by_cases hjk : j = k
    · subst hjk
      obtain rfl := Option.some.inj (hk.symm.trans hj)
      rw [hh, link_linked (by omega)]
    · have hne : h' ≠ h := by
        rintro rfl
        exact hjk (index_unique hnodup hj hk)
      rw [hother h' hne, hchain.frame j h' hj]
      have hlink : link fs k u j = link fs (k + 1) u j := if_congr (by omega) rfl rfl
      rw [hlink]
  gone h' hh' := by
    rw [hother h' fun heq => hh' (heq ▸ List.mem_of_getElem? hk), hchain.gone h' hh']

/-! ### Suspending -/

/-- The call of `resume()` by the worker. -/
def IsBase (fs : List Handle) (u : Nat) : Native → Prop
  | .resumeCoroutine => True
  | .startCoroutine h => u + 1 = fs.length ∧ fs[u]? = some h
  | .awaitSuspend _ => False

/-- The machine is back at the worker, with its frames linked. -/
structure BackSuspended (fs : List Handle) (p : Point) (m m' : Machine) : Prop where
  chain : Chain fs 0 0 p m'.frames
  coroHandle : m'.coroHandle = m.coroHandle
  isYielded : m'.isYielded = true
  running : m'.running = m.running
  ended : m'.ended = false
  next : m'.next = m.next
  trace : m'.trace = m.trace

variable {m : Machine}

theorem Chain.not_done (hchain : Chain fs k u p m.frames) (hp : p ≠ .final) (hj : fs[j]? = some h) :
    m.done h = some false := by
  rw [Machine.done, hchain.frame j h hj, Option.map_some]
  cases j with
  | zero => exact congrArg some (decide_eq_false hp)
  | succ j => rfl

/-- The worker finds the task suspended. -/
theorem cleanUp_suspended (hchain : Chain fs u u p m.frames) (hp : p ≠ .final)
    (hj : fs[j]? = some h) (hne : fs ≠ []) (hcoro : m.coroHandle = fs.head?)
    (hyield : m.isYielded = true) : ∃ m', m.cleanUp h = some m' ∧ BackSuspended fs p m m' := by
  obtain ⟨top, rest, rfl⟩ := List.exists_cons_of_ne_nil hne
  refine ⟨{ m with ended := false }, ?_, hchain.linked, rfl, hyield, rfl, rfl, rfl, rfl⟩
  rw [Machine.cleanUp, hchain.not_done hp hj]
  dsimp only
  rw [Machine.endExec, hcoro]
  dsimp only [List.head?_cons]
  rw [hchain.not_done (j := 0) hp rfl, Option.map_some, hyield]
  rfl

theorem unwind_resumeCoroutine (hcoro : m.coroHandle = some h) (native : List Native) :
    Machine.unwind (.resumeCoroutine :: native) m = { m with native := native }.cleanUp h := by
  rw [Machine.unwind, hcoro]

/-- Each `await_suspend` tells its inner coroutine who called it, and lets its caller suspend. -/
theorem unwind_suspended {base : Native} (hnodup : fs.Nodup) (hp : p ≠ .final) (hu : u < fs.length)
    (hbase : IsBase fs u base) (n : Nat) (hk : k + n = u) (hchain : Chain fs k u p m.frames)
    (hcoro : m.coroHandle = fs.head?) (hyield : m.isYielded = true) :
    ∃ m', Machine.unwind (((fs.drop (k + 1)).take n).map .awaitSuspend ++ [base]) m = some m' ∧
      BackSuspended fs p m m' := by
  have hne : fs ≠ [] := List.ne_nil_of_length_pos (Nat.zero_lt_of_lt hu)
  induction n generalizing k m with
  | zero =>
    obtain rfl : k = u := by omega
    rw [List.take_zero, List.map_nil, List.nil_append]
    cases base with
    | awaitSuspend caller => exact absurd hbase id
    | startCoroutine h =>
      rw [Machine.unwind]
      obtain ⟨m', hm', hback⟩ := cleanUp_suspended (m := { m with native := [] }) hchain hp hbase.2
        hne hcoro hyield
      exact ⟨m', hm', hback.chain, hback.coroHandle, hback.isYielded, hback.running, hback.ended,
        hback.next, hback.trace⟩
    | resumeCoroutine =>
      obtain ⟨top, rest, rfl⟩ := List.exists_cons_of_ne_nil hne
      rw [unwind_resumeCoroutine hcoro]
      obtain ⟨m', hm', hback⟩ := cleanUp_suspended (m := { m with native := [] }) (j := 0) hchain hp
        rfl hne hcoro hyield
      exact ⟨m', hm', hback.chain, hback.coroHandle, hback.isYielded, hback.running, hback.ended,
        hback.next, hback.trace⟩
  | succ n ih =>
    have hlt : k + 1 < fs.length := by omega
    have hinner : fs[k]? = some fs[k] := List.getElem?_eq_getElem (by omega)
    have hcaller : fs[k + 1]? = some fs[k + 1] := List.getElem?_eq_getElem hlt
    have hpoint : m.frames fs[k + 1] =
        some ⟨⟨true, link fs k u (k + 1)⟩, .awaiting ⟨some fs[k], some fs[k + 1]⟩⟩ := by
      rw [hchain.frame (k + 1) _ hcaller, pointAt, hinner]
    rw [List.drop_eq_getElem_cons hlt, List.take_succ_cons, List.map_cons, List.cons_append,
      Machine.unwind, hpoint]
    dsimp only
    rw [hchain.not_done hp hinner]
    dsimp only
    rw [hchain.frame k _ hinner]
    dsimp only
    have hlinked : Chain fs (k + 1) u p (m.setFrame fs[k]
        (some ⟨⟨true, some fs[k + 1]⟩, pointAt fs p fs[k] k⟩)).frames := by
      refine hchain.setLink hnodup hinner ?_ fun h' hne => Function.update_of_ne hne _ _
      rw [hcaller]
      exact Function.update_self ..
    obtain ⟨m', hm', hback⟩ := ih (by omega) hlinked hcoro hyield
    exact ⟨m', hm', hback.chain, hback.coroHandle, hback.isYielded, hback.running, hback.ended,
      hback.next, hback.trace⟩

/-! ### The stack and the machine -/

/-- A coroutine runs. -/
structure Runs (s : CallStack) (u : Nat) (m : Machine) : Prop where
  chain : Chain s.frames 0 u .body m.frames
  unlinked : u < s.frames.length
  native : ∃ base, IsBase s.frames u base ∧
    m.native = ((s.frames.drop 1).take u).map .awaitSuspend ++ [base]
  coroHandle : m.coroHandle = s.frames[u]?
  isYielded : m.isYielded = false
  running : m.running = s.frames.head?
  ended : m.ended = false
  next : m.next = s.callers.length

/-- The task is suspended. -/
structure Waits (s : CallStack) (m : Machine) : Prop where
  chain : Chain s.frames 0 0 .yielded m.frames
  coroHandle : m.coroHandle = s.frames.head?
  isYielded : m.isYielded = true
  running : m.running = none
  ended : m.ended = false
  next : m.next = s.callers.length

/-- All frames have returned. -/
structure Over (m : Machine) : Prop where
  frames : ∀ h, m.frames h = none
  coroHandle : m.coroHandle = none
  isYielded : m.isYielded = false
  running : m.running = none
  ended : m.ended = true

/-- The machine is in a state that the stack stands for. -/
def Simulates (s : CallStack) (m : Machine) : Prop :=
  match s.suspended, s.frames with
  | true, _ => Waits s m
  | false, [] => Over m
  | false, _ :: _ => ∃ u, Runs s u m

variable {s : CallStack}

/-- The frame that runs. -/
theorem Runs.top (hrun : Runs s u m) (hframes : s.frames = r :: rest) :
    m.running = some r ∧ m.frames r = some ⟨⟨true, link (r :: rest) 0 u 0⟩, .body⟩ := by
  refine ⟨by rw [hrun.running, hframes]; rfl, ?_⟩
  have htop := hrun.chain.frame 0 r (by rw [hframes]; rfl)
  rwa [hframes] at htop

/-- **A coroutine that suspends** is what the worker resumes next. -/
theorem suspend_spec (hok : s.Ok) (hrun : Runs s u m) (hframes : s.frames = r :: rest) :
    ∃ m', m.suspend r ⟨⟨true, link (r :: rest) 0 u 0⟩, .body⟩ = some m' ∧
      Waits { s with suspended := true } m' ∧ m'.trace = m.trace := by
  obtain ⟨base, hbase, hnative⟩ := hrun.native
  have hchain : Chain s.frames 0 u .yielded (m.setFrame r
      (some ⟨⟨true, link (r :: rest) 0 u 0⟩, .yielded⟩)).frames := by
    have hold := hrun.chain
    have hnodup := hok.nodup
    rw [hframes] at hold hnodup ⊢
    exact hold.setTop hnodup (Function.update_self ..) fun h hne => Function.update_of_ne hne _ _
  obtain ⟨m', hm', hback⟩ := unwind_suspended (m := { m.setFrame r
      (some ⟨⟨true, link (r :: rest) 0 u 0⟩, .yielded⟩) with
        coroHandle := some r, isYielded := true, running := none }) hok.nodup
    (by simp) hrun.unlinked hbase u (Nat.zero_add u) hchain (by rw [hframes]; rfl) rfl
  refine ⟨m', ?_, ⟨hback.chain, ?_, hback.isYielded, hback.running, hback.ended, ?_⟩, hback.trace⟩
  · rw [Machine.suspend, hnative]
    exact hm'
  · rw [hback.coroHandle, hframes]
    rfl
  · exact hback.next.trans hrun.next

/-! ### Calling, returning and resuming -/

/-- The inner coroutine runs in a frame of its own, and its caller awaits it. -/
def called (m : Machine) (r : Handle) (f : Frame) : Machine :=
  { m with
    frames := Function.update (Function.update (Function.update m.frames m.next
        (some ⟨⟨f.promise.runCtx, none⟩, .initial⟩))
        r (some { f with point := .awaiting ⟨some m.next, some r⟩ }))
        m.next (some ⟨⟨f.promise.runCtx, none⟩, .body⟩)
    next := m.next + 1
    native := .awaitSuspend r :: m.native
    running := some m.next }

theorem call_eq (hne : m.next ≠ r) (f : Frame) : m.call r f = some (called m r f) := by
  have hinner : Function.update (Function.update m.frames m.next
      (some ⟨⟨f.promise.runCtx, none⟩, .initial⟩)) r
      (some { f with point := .awaiting ⟨some m.next, some r⟩ }) m.next =
      some ⟨⟨f.promise.runCtx, none⟩, .initial⟩ :=
    (Function.update_of_ne hne _ _).trans (Function.update_self ..)
  unfold Machine.call Machine.enter Machine.setFrame
  dsimp only
  rw [hinner]
  rfl

/-- **A call** puts a frame on the stack that does not know its caller. -/
theorem call_spec (hok : s.Ok) (hrun : Runs s u m) (hframes : s.frames = r :: rest) :
    Runs { s with frames := s.callers.length :: r :: rest, callers := s.callers ++ [some r] } (u + 1)
        (called m r ⟨⟨true, link (r :: rest) 0 u 0⟩, .body⟩) ∧ m.next ≠ r := by
  have hnext : m.next ∉ r :: rest := by
    rw [hrun.next, ← hframes]
    exact hok.next_notMem
  have hne : m.next ≠ r := fun heq => hnext (heq ▸ List.mem_cons_self)
  have hnodup : (m.next :: r :: rest).Nodup := List.nodup_cons.mpr ⟨hnext, hframes ▸ hok.nodup⟩
  have hold : Chain (r :: rest) 0 u .body m.frames := hframes ▸ hrun.chain
  obtain ⟨base, hbase, hnative⟩ := hrun.native
  have hchain : Chain (m.next :: r :: rest) 0 (u + 1) .body
      (called m r ⟨⟨true, link (r :: rest) 0 u 0⟩, .body⟩).frames := hold.push hnodup
    (Function.update_self ..)
    ((Function.update_of_ne hne.symm _ _).trans (Function.update_self ..))
    fun h hn hr => (Function.update_of_ne hn _ _).trans
      ((Function.update_of_ne hr _ _).trans (Function.update_of_ne hn _ _))
  have hcoro := hrun.coroHandle
  have hlt := hrun.unlinked
  rw [hrun.next] at hchain
  rw [hframes] at hbase hnative hcoro hlt
  refine ⟨⟨hchain, Nat.succ_lt_succ hlt, ⟨base, ?_, ?_⟩, hcoro, hrun.isYielded, congrArg some hrun.next,
    hrun.ended, ?_⟩, hne⟩
  · cases base with
    | resumeCoroutine => trivial
    | startCoroutine h => exact ⟨congrArg (· + 1) hbase.1, hbase.2⟩
    | awaitSuspend caller => exact hbase
  · exact congrArg (Native.awaitSuspend r :: ·) hnative
  · rw [List.length_append, ← hrun.next]
    rfl

variable {pr : Promise}

theorem done_final (hh : m.frames h = some ⟨pr, .final⟩) : m.done h = some true := by
  rw [Machine.done, hh]
  rfl

theorem destroy_final (hh : m.frames h = some ⟨pr, .final⟩) :
    m.destroy h =
      some { m.setFrame h none with trace := m.trace ++ [Occurrence.destroyed h] } := by
  rw [Machine.destroy, hh]
  rfl

/-- The worker finds the task done. -/
theorem cleanUp_final (hh : m.frames h = some ⟨pr, .final⟩) :
    m.cleanUp h = some { m.setFrame h none with
      trace := m.trace ++ [Occurrence.destroyed h]
      coroHandle := none
      ended := !m.isYielded } := by
  rw [Machine.cleanUp, done_final hh]
  dsimp only
  rw [destroy_final hh]
  rfl

/-- A caller goes on: it destroys the inner coroutine and is the one to resume. -/
theorem enter_awaiting {caller : Option Handle}
    (hc : m.frames c = some ⟨pr, .awaiting ⟨some h, some c⟩⟩)
    (hh : m.frames h = some ⟨⟨true, caller⟩, .final⟩) :
    m.enter c = some (Machine.runs
      { m.setFrame h none with
        trace := m.trace ++ [Occurrence.destroyed h]
        coroHandle := some c } c ⟨pr, .awaiting ⟨some h, some c⟩⟩) := by
  rw [Machine.enter, hc]
  dsimp only
  rw [Machine.awaitResume]
  dsimp only
  rw [hh]
  dsimp only
  rw [destroy_final hh]
  rfl

/-- The frame that runs is finished. -/
def finished (m : Machine) (r : Handle) (link : Option Handle) : Machine :=
  { m.setFrame r (some ⟨⟨true, link⟩, .final⟩) with
    running := none
    trace := m.trace ++ [Occurrence.finished r] }

theorem finished_top (m : Machine) (r : Handle) (link : Option Handle) :
    (finished m r link).frames r = some ⟨⟨true, link⟩, .final⟩ := Function.update_self ..

theorem finished_other (m : Machine) (link : Option Handle) (hne : h ≠ r) :
    (finished m r link).frames h = m.frames h := Function.update_of_ne hne _ _

/-- **The last frame returns**: the worker destroys it and ends the task. -/
theorem ret_last (hrun : Runs s u m) (hframes : s.frames = [r]) :
    ∃ m', m.finalSuspend r ⟨⟨true, link [r] 0 u 0⟩, .body⟩ = some m' ∧ Over m' ∧
      m'.trace = m.trace ++ [Occurrence.finished r, Occurrence.destroyed r] := by
  have hu : u = 0 := by
    have hlt := hrun.unlinked
    rw [hframes] at hlt
    exact Nat.lt_one_iff.mp hlt
  subst hu
  obtain ⟨base, hbase, hnative⟩ := hrun.native
  have hcoro := hrun.coroHandle
  have hchain := hrun.chain
  rw [hframes] at hbase hnative hcoro hchain
  have hclean := cleanUp_final (m := { finished m r none with native := [] }) (finished_top m r none)
  refine ⟨{ ({ finished m r none with native := [] } : Machine).setFrame r none with
      trace := (finished m r none).trace ++ [Occurrence.destroyed r]
      coroHandle := none
      ended := !m.isYielded }, ?_,
    ⟨fun h => ?_, rfl, hrun.isYielded, rfl, congrArg not hrun.isYielded⟩,
    List.append_assoc m.trace [Occurrence.finished r] [Occurrence.destroyed r]⟩
  · refine Eq.trans ?_ hclean
    rw [Machine.finalSuspend, hnative]
    cases base with
    | awaitSuspend caller => exact absurd hbase id
    | startCoroutine h =>
      obtain rfl : r = h := Option.some.inj hbase.2
      rfl
    | resumeCoroutine => exact unwind_resumeCoroutine (m := finished m r none) hcoro []
  · by_cases hhr : h = r
    · rw [hhr]
      exact Function.update_self ..
    · refine (Function.update_of_ne hhr _ _).trans ((finished_other m none hhr).trans ?_)
      exact hchain.gone h (by simpa using hhr)

/-- The caller at its call of `c`. -/
theorem Runs.caller (hrun : Runs s u m) (hframes : s.frames = r :: c :: rest) :
    m.frames c = some ⟨⟨true, link (r :: c :: rest) 0 u 1⟩, .awaiting ⟨some r, some c⟩⟩ := by
  have hcaller := hrun.chain.frame 1 c (by rw [hframes]; rfl)
  rwa [hframes] at hcaller

/-- The machine after a return: the caller runs, and the callee is gone. -/
def returned (m : Machine) (r c : Handle) (link : Option Handle) : Handle → Option Frame :=
  Function.update (Function.update m.frames r none) c (some ⟨⟨true, link⟩, .body⟩)

theorem Chain.returned (hchain : Chain (r :: c :: rest) 0 u p m.frames)
    (hnodup : (r :: c :: rest).Nodup) :
    Chain (c :: rest) 0 (u - 1) .body (returned m r c (link (r :: c :: rest) 0 u 1)) := by
  have hne : r ≠ c := by
    rintro rfl
    exact (List.nodup_cons.mp hnodup).1 List.mem_cons_self
  exact hchain.pop hnodup ((Function.update_of_ne hne _ _).trans (Function.update_self ..))
    (Function.update_self ..)
    fun h hr hc => (Function.update_of_ne hc _ _).trans (Function.update_of_ne hr _ _)

/-- **A frame without a link returns** to the `await_suspend` that started it. -/
theorem ret_started (hok : s.Ok) (hrun : Runs s (u + 1) m) (hframes : s.frames = r :: c :: rest) :
    ∃ m', m.finalSuspend r ⟨⟨true, link (r :: c :: rest) 0 (u + 1) 0⟩, .body⟩ = some m' ∧
      Runs { s with frames := c :: rest } u m' ∧
      m'.trace = m.trace ++ [Occurrence.finished r, Occurrence.destroyed r, Occurrence.resumed r c] := by
  have hnodup : (r :: c :: rest).Nodup := hframes ▸ hok.nodup
  have hne : c ≠ r := by
    rintro rfl
    exact (List.nodup_cons.mp hnodup).1 List.mem_cons_self
  have hcaller := hrun.caller hframes
  obtain ⟨base, hbase, hnative⟩ := hrun.native
  have hcoro := hrun.coroHandle
  have hchain := hrun.chain
  have hlt := hrun.unlinked
  rw [hframes] at hbase hnative hcoro hchain hlt
  have hreturned := hchain.returned hnodup
  have hframe : (finished m r none).frames c = some ⟨⟨true, link (r :: c :: rest) 0 (u + 1) 1⟩,
      .awaiting ⟨some r, some c⟩⟩ := (finished_other m none hne).trans hcaller
  refine ⟨{ finished m r none with
      frames := returned m r c (link (r :: c :: rest) 0 (u + 1) 1)
      running := some c
      native := ((rest.take u).map .awaitSuspend ++ [base])
      trace := (finished m r none).trace ++ [Occurrence.destroyed r] ++ [Occurrence.resumed r c] }, ?_,
    ⟨hreturned, Nat.lt_of_succ_lt_succ hlt, ⟨base, ?_, rfl⟩, hcoro, hrun.isYielded, rfl, hrun.ended,
      hrun.next⟩, ?_⟩
  · rw [link_unlinked (Nat.zero_le 0) (Nat.succ_pos u), Machine.finalSuspend, hnative]
    dsimp only
    refine Eq.trans (b := Machine.unwind (.awaitSuspend c :: ((rest.take u).map .awaitSuspend ++ [base]))
      (finished m r none)) rfl ?_
    rw [Machine.unwind, hframe]
    dsimp only
    rw [done_final (finished_top m r none), destroy_final (finished_top m r none)]
    have hframes' : Function.update (Function.update (Function.update m.frames r
        (some ⟨⟨true, none⟩, .final⟩)) r none) c
        (some ⟨⟨true, link (r :: c :: rest) 0 (u + 1) 1⟩, .body⟩) =
        returned m r c (link (r :: c :: rest) 0 (u + 1) 1) := by
      rw [Function.update_idem]
      rfl
    rw [← hframes']
    rfl
  · cases base with
    | resumeCoroutine => trivial
    | startCoroutine h => exact ⟨Nat.succ.inj hbase.1, hbase.2⟩
    | awaitSuspend caller => exact hbase
  · simp [finished, List.append_assoc]

/-- **A frame with a link returns** straight to its caller. -/
theorem ret_linked (hok : s.Ok) (hrun : Runs s 0 m) (hframes : s.frames = r :: c :: rest) :
    ∃ m', m.finalSuspend r ⟨⟨true, link (r :: c :: rest) 0 0 0⟩, .body⟩ = some m' ∧
      Runs { s with frames := c :: rest } 0 m' ∧
      m'.trace = m.trace ++ [Occurrence.finished r, Occurrence.resumed r c, Occurrence.destroyed r] := by
  have hnodup : (r :: c :: rest).Nodup := hframes ▸ hok.nodup
  have hne : c ≠ r := by
    rintro rfl
    exact (List.nodup_cons.mp hnodup).1 List.mem_cons_self
  have hcaller := hrun.caller hframes
  obtain ⟨base, hbase, hnative⟩ := hrun.native
  have hchain := hrun.chain
  rw [hframes] at hbase hnative hchain
  have hreturned := hchain.returned hnodup
  have hframe : (finished m r (some c)).frames c = some ⟨⟨true, link (r :: c :: rest) 0 0 1⟩,
      .awaiting ⟨some r, some c⟩⟩ := (finished_other m (some c) hne).trans hcaller
  have hresume : base = .resumeCoroutine := by
    cases base with
    | resumeCoroutine => rfl
    | startCoroutine h => exact absurd (Nat.succ.inj hbase.1) (by simp)
    | awaitSuspend caller => exact absurd hbase id
  subst hresume
  refine ⟨{ finished m r (some c) with
      frames := returned m r c (link (r :: c :: rest) 0 0 1)
      running := some c
      coroHandle := some c
      trace := (finished m r (some c)).trace ++ [Occurrence.resumed r c] ++ [Occurrence.destroyed r] }, ?_,
    ⟨hreturned, Nat.succ_pos _, ⟨.resumeCoroutine, trivial, hnative⟩, rfl, hrun.isYielded, rfl, hrun.ended,
      hrun.next⟩, ?_⟩
  · have hlink : link (r :: c :: rest) 0 0 0 = some c := link_linked (by omega)
    rw [hlink, Machine.finalSuspend]
    refine (enter_awaiting (m := { finished m r (some c) with
      trace := (finished m r (some c)).trace ++ [Occurrence.resumed r c] }) hframe
      (finished_top m r (some c))).trans ?_
    have hframes' : Function.update (Function.update (Function.update m.frames r
        (some ⟨⟨true, some c⟩, .final⟩)) r none) c
        (some ⟨⟨true, link (r :: c :: rest) 0 0 1⟩, .body⟩) =
        returned m r c (link (r :: c :: rest) 0 0 1) := by
      rw [Function.update_idem]
      rfl
    rw [← hframes']
    rfl
  · simp [finished, List.append_assoc]

theorem resumeCoroutine_eq (hcoro : m.coroHandle = some h) :
    m.resumeCoroutine = Machine.enter { m with isYielded := false, native := [.resumeCoroutine] } h := by
  rw [Machine.resumeCoroutine, hcoro]

theorem enter_yielded (hh : m.frames h = some ⟨pr, .yielded⟩) :
    m.enter h = some (m.runs h ⟨pr, .yielded⟩) := by
  rw [Machine.enter, hh]

/-- **The worker resumes** the innermost frame. -/
theorem resume_spec (hok : s.Ok) (hwait : Waits s m) (hframes : s.frames = r :: rest) :
    ∃ m', m.resumeCoroutine = some m' ∧ Runs { s with suspended := false } 0 m' ∧
      m'.trace = m.trace := by
  have hchain := hwait.chain
  have hcoro := hwait.coroHandle
  have hnodup := hok.nodup
  rw [hframes] at hchain hcoro hnodup
  have htop := hchain.frame 0 r rfl
  refine ⟨Machine.runs { m with isYielded := false, native := [.resumeCoroutine] } r
    ⟨⟨true, link (r :: rest) 0 0 0⟩, .yielded⟩, ?_, ?_, rfl⟩
  · rw [resumeCoroutine_eq hcoro]
    exact enter_yielded (m := { m with isYielded := false, native := [.resumeCoroutine] }) htop
  · refine ⟨?_, ?_, ⟨.resumeCoroutine, trivial, rfl⟩, ?_, rfl, ?_, hwait.ended, hwait.next⟩
    · dsimp only
      rw [hframes]
      exact hchain.setTop hnodup (Function.update_self ..) fun h hne => Function.update_of_ne hne _ _
    · dsimp only
      rw [hframes]
      exact Nat.succ_pos _
    · dsimp only
      rw [hframes]
      exact hcoro
    · dsimp only
      rw [hframes]
      rfl

/-! ### Runs -/

/-- What the move is for the stack. -/
def Machine.Move.toStack : Machine.Move → CallStack.Move
  | .call => .call
  | .awaitFuture | .yield => .suspend
  | .ret => .ret
  | .resume => .resume

theorem step_running (hrun : m.running = some r) {f : Frame} (hr : m.frames r = some f)
    (move : Machine.Move) (hmove : move ≠ .resume) :
    m.step move = match move with
      | .call => m.call r f
      | .awaitFuture => m.suspend r f
      | .yield => if f.promise.runCtx then m.suspend r f else some m
      | .ret => m.finalSuspend r f
      | .resume => none := by
  cases move with
  | resume => exact absurd rfl hmove
  | call | awaitFuture | yield | ret =>
    rw [Machine.step, hrun]
    dsimp only
    rw [hr]

/-- **The machine follows the stack**, whatever the next move is. -/
theorem step_simulates (hok : s.Ok) (hsim : Simulates s m) {move : Machine.Move} {s' : CallStack}
    (hstep : s.step move.toStack = some s') :
    ∃ m' new, m.step move = some m' ∧ Simulates s' m' ∧ s.Occurs move.toStack new ∧
      m'.trace = m.trace ++ new := by
  obtain ⟨fs, callers, suspended⟩ := s
  cases suspended with
  | true =>
    have hwait : Waits ⟨fs, callers, true⟩ m := hsim
    obtain ⟨r, rest, rfl⟩ := List.exists_cons_of_ne_nil (hok.ready rfl)
    cases move with
    | resume =>
      obtain rfl := Option.some.inj hstep
      obtain ⟨m', hm', hrun, htrace⟩ := resume_spec hok hwait rfl
      refine ⟨m', [], ?_, ⟨0, hrun⟩, rfl, by rw [htrace, List.append_nil]⟩
      rw [Machine.step, if_pos ⟨hwait.running, hwait.ended⟩, hm']
    | call | awaitFuture | yield | ret => cases hstep
  | false =>
    cases fs with
    | nil => cases move <;> cases hstep
    | cons r rest =>
      obtain ⟨u, hrun⟩ : ∃ u, Runs ⟨r :: rest, callers, false⟩ u m := hsim
      obtain ⟨hrunning, hframe⟩ := hrun.top rfl
      cases move with
      | resume => cases hstep
      | call =>
        obtain rfl := Option.some.inj hstep
        obtain ⟨hcalled, hne⟩ := call_spec hok hrun rfl
        refine ⟨_, [], ?_, ⟨u + 1, hcalled⟩, rfl, (List.append_nil _).symm⟩
        rw [step_running hrunning hframe .call (by simp)]
        exact call_eq hne _
      | awaitFuture =>
        obtain rfl := Option.some.inj hstep
        obtain ⟨m', hm', hwait, htrace⟩ := suspend_spec hok hrun rfl
        refine ⟨m', [], ?_, hwait, rfl, by rw [htrace, List.append_nil]⟩
        rw [step_running hrunning hframe .awaitFuture (by simp)]
        exact hm'
      | yield =>
        obtain rfl := Option.some.inj hstep
        obtain ⟨m', hm', hwait, htrace⟩ := suspend_spec hok hrun rfl
        refine ⟨m', [], ?_, hwait, rfl, by rw [htrace, List.append_nil]⟩
        rw [step_running hrunning hframe .yield (by simp)]
        exact hm'
      | ret =>
        obtain rfl := Option.some.inj hstep
        have hstep' := step_running hrunning hframe .ret (by simp)
        dsimp only at hstep'
        cases rest with
        | nil =>
          obtain ⟨m', hm', hover, htrace⟩ := ret_last hrun rfl
          exact ⟨m', _, hstep'.trans hm', hover, rfl, htrace⟩
        | cons c rest =>
          cases u with
          | zero =>
            obtain ⟨m', hm', hrun', htrace⟩ := ret_linked hok hrun rfl
            exact ⟨m', _, hstep'.trans hm', ⟨0, hrun'⟩, Or.inl rfl, htrace⟩
          | succ u =>
            obtain ⟨m', hm', hrun', htrace⟩ := ret_started hok hrun rfl
            exact ⟨m', _, hstep'.trans hm', ⟨u, hrun'⟩, Or.inr rfl, htrace⟩

/-- The first frame runs. -/
theorem simulates_start : ∃ m, Machine.start = some m ∧ Simulates CallStack.start m ∧ m.trace = [] := by
  refine ⟨_, rfl, ⟨0, ?_, Nat.one_pos, ⟨.startCoroutine 0, ⟨rfl, rfl⟩, rfl⟩, rfl, rfl, rfl, rfl, rfl⟩, rfl⟩
  constructor
  · intro j h hj
    cases j with
    | zero =>
      obtain rfl := Option.some.inj hj
      rfl
    | succ j => cases hj
  · intro h hh
    have hne : h ≠ 0 := fun heq => hh (heq ▸ List.mem_cons_self)
    have hothers : Function.update (fun _ => none) 0 (some (⟨⟨true, none⟩, .initial⟩ : Frame)) h = none :=
      Function.update_of_ne hne _ _
    exact (Function.update_of_ne hne _ _).trans hothers

/-- The coroutines of the task are in the state of the stack. -/
structure Behaves (s : CallStack) (m : Machine) : Prop where
  /-- The worker would resume the innermost frame. -/
  coroHandle : s.suspended = true → m.coroHandle = s.frames.head? ∧ s.frames ≠ []
  /-- Each frame that has returned was destroyed once and has handed over to its caller once,
  when it was finished. -/
  accounts : s.Accounts m.trace
  /-- The worker ends the task when the outermost frame is finished. -/
  ended : m.ended = true ↔ Occurrence.finished 0 ∈ m.trace

theorem Simulates.ended_iff (hsim : Simulates s m) (hok : s.Ok) : m.ended = true ↔ s.frames = [] := by
  obtain ⟨fs, callers, suspended⟩ := s
  cases suspended with
  | true =>
    have hwait : Waits ⟨fs, callers, true⟩ m := hsim
    rw [hwait.ended]
    exact iff_of_false Bool.false_ne_true (hok.ready rfl)
  | false =>
    cases fs with
    | nil =>
      have hover : Over m := hsim
      exact iff_of_true hover.ended rfl
    | cons r rest =>
      obtain ⟨u, hrun⟩ : ∃ u, Runs ⟨r :: rest, callers, false⟩ u m := hsim
      rw [hrun.ended]
      exact iff_of_false Bool.false_ne_true (List.cons_ne_nil r rest)

theorem Simulates.behaves (hsim : Simulates s m) (hok : s.Ok) (haccounts : s.Accounts m.trace) :
    Behaves s m where
  coroHandle hsusp := by
    obtain ⟨fs, callers, suspended⟩ := s
    dsimp only at hsusp
    subst hsusp
    have hwait : Waits ⟨fs, callers, true⟩ m := hsim
    exact ⟨hwait.coroHandle, hok.ready rfl⟩
  accounts := haccounts
  ended := by rw [hsim.ended_iff hok, haccounts.finished, hok.returned_outermost]

/-- The moves of a run, from any state that the stack stands for. -/
theorem run_simulates {moves : List Machine.Move} {s' : CallStack} (hok : s.Ok) (hsim : Simulates s m)
    (haccounts : s.Accounts m.trace) (hrun : CallStack.Runs (moves.map Machine.Move.toStack) s s') :
    ∃ m', moves.foldlM (fun m move => Machine.step m move) m = some m' ∧ s'.Ok ∧ Simulates s' m' ∧
      s'.Accounts m'.trace := by
  induction moves generalizing s m with
  | nil =>
    obtain rfl : s' = s := hrun
    exact ⟨m, rfl, hok, hsim, haccounts⟩
  | cons move moves ih =>
    obtain ⟨s₁, hstep, hrest⟩ := hrun
    obtain ⟨m₁, new, hm₁, hsim₁, hnew, htrace⟩ := step_simulates hok hsim hstep
    obtain ⟨hok₁, haccounts₁⟩ := haccounts.step hok hstep hnew
    obtain ⟨m', hm', hend⟩ := ih hok₁ hsim₁ (htrace ▸ haccounts₁) hrest
    refine ⟨m', ?_, hend⟩
    rw [List.foldlM_cons, hm₁]
    exact hm'

/--
**Nested coroutines behave as a call stack.**  Whatever the coroutines of a task do, the frames
are used as they may be, the worker always has the innermost suspended frame to resume, each
frame hands over to its caller once, when it is finished, and is destroyed once, and the task
ends when the outermost frame is finished.
-/
theorem nested_run {moves : List Machine.Move} {s : CallStack}
    (hrun : CallStack.Runs (moves.map Machine.Move.toStack) CallStack.start s) :
    ∃ m, Machine.runTask moves = some m ∧ Behaves s m := by
  obtain ⟨m, hm, hsim, htrace⟩ := simulates_start
  obtain ⟨m', hm', hok, hsim', haccounts⟩ := run_simulates CallStack.ok_start hsim
    (htrace ▸ CallStack.accounts_start) hrun
  refine ⟨m', ?_, hsim'.behaves hok haccounts⟩
  rw [Machine.runTask, hm]
  exact hm'

/-- A coroutine that calls two others, one inside the other, which wait for a future and yield. -/
def twoDeep : List Machine.Move :=
  [.call, .call, .awaitFuture, .resume, .ret, .call, .ret, .yield, .resume, .ret, .ret]

theorem nested_run_twoDeep : ∃ m, Machine.runTask twoDeep = some m ∧
    Behaves ⟨[], [none, some 0, some 1, some 1], false⟩ m :=
  nested_run (Along.of_foldlM (f := CallStack.step) (by decide))

end Nested
end IowarpCore
