/-
A scatter-gather send is complete when nothing lies behind its 64th buffer.

While the calls write or are to be made again, the loop is the one of `sendV`
(`sendVCalls_eq`), so what it puts on the connection is known.  Each call that writes
takes a byte as long as the first 64 buffers have one, so with enough of them the loop
comes to their end; it leaves only if that is the end of all buffers.
-/
import IowarpCore.Lightbeam.SendV
import IowarpCore.Proofs.SocketTransport

namespace IowarpCore
namespace Lightbeam

/-! ### The calls that go on -/

variable {accepts : List Nat} {iov : List Bytes} {out : Bytes} {sent total : Nat}

/-- Of the buffers only their bytes matter: an empty one at the front is no difference. -/
theorem sendVLoop_congr {iov' : List Bytes} (h : iov.flatten = iov'.flatten) :
    sendVLoop total accepts iov sent out = sendVLoop total accepts iov' sent out := by
  induction accepts generalizing iov iov' sent out with
  | nil =>
    unfold sendVLoop
    rfl
  | cons a accepts ih =>
    unfold sendVLoop
    split
    · rfl
    · dsimp only
      rw [h]
      exact ih (by rw [flatten_advance, flatten_advance, h])

/-- A call that takes nothing is made again. -/
theorem sendVLoop_zero (hlt : ¬sent ≥ total) :
    sendVLoop total (0 :: accepts) iov sent out = sendVLoop total accepts iov sent out := by
  rw [sendVLoop, if_neg hlt]
  dsimp only
  rw [Nat.zero_min, List.take_zero, List.append_nil, Nat.add_zero]
  exact sendVLoop_congr (by rw [flatten_advance, List.drop_zero])

/-- Calls that go on do what their counts say, and the number returned is what was sent. -/
theorem sendVCalls_eq {calls : List Writev} (hgo : ∀ w ∈ calls, w.Goes) (hsent : sent = out.length) :
    sendVCalls total calls iov sent out =
      (sendVLoop total (calls.map Writev.takes) iov sent out).map fun bytes =>
        ((bytes.length : Int), bytes) := by
  induction calls generalizing iov sent out with
  | nil =>
    unfold sendVCalls sendVLoop
    split
    · rw [hsent, Option.map_some]
    · rfl
  | cons w calls ih =>
    have hrest : ∀ w ∈ calls, w.Goes := fun w hw => hgo w (List.mem_cons_of_mem _ hw)
    have hw : w.Goes := hgo w List.mem_cons_self
    by_cases hdone : sent ≥ total
    · unfold sendVCalls sendVLoop
      rw [if_pos hdone, if_pos hdone, hsent, Option.map_some]
    rw [List.map_cons, sendVCalls.eq_def, if_neg hdone]
    cases w with
    | wrote most =>
      rw [sendVLoop, if_neg hdone]
      refine ih hrest ?_
      rw [List.length_append, List.length_take, hsent]
      omega
    | interrupted =>
      rw [Writev.takes, sendVLoop_zero hdone]
      exact ih hrest hsent
    | wouldBlock ready =>
      obtain rfl : ready = true := hw
      rw [Writev.takes, sendVLoop_zero hdone]
      exact ih hrest hsent
    | failed => exact absurd hw id

/-- `SendV` against calls that go on. -/
theorem sendVAgainst_eq {calls : List Writev} (hgo : ∀ w ∈ calls, w.Goes) (iov : List Bytes) :
    sendVAgainst calls iov =
      (sendV (calls.map Writev.takes) iov).map fun bytes => ((bytes.length : Int), bytes) :=
  sendVCalls_eq hgo rfl

/-! ### Enough calls that write -/

/-- A call that takes a byte if there is one leaves fewer; with as many of them as there are
bytes the loop returns. -/
theorem sendVLoop_enough (htotal : total = sent + iov.flatten.length)
    (henough : iov.flatten.length ≤ (accepts.filter (0 < ·)).length) :
    ∃ bytes, sendVLoop total accepts iov sent out = some bytes := by
  induction accepts generalizing iov sent out with
  | nil =>
    rw [List.filter_nil, List.length_nil] at henough
    unfold sendVLoop
    exact ⟨out, if_pos (by omega)⟩
  | cons a accepts ih =>
    by_cases hdone : sent ≥ total
    · unfold sendVLoop
      exact ⟨out, if_pos hdone⟩
    rw [sendVLoop, if_neg hdone]
    have hleft : (advance (min a iov.flatten.length) iov).flatten.length =
        iov.flatten.length - min a iov.flatten.length := by
      rw [flatten_advance, List.length_drop]
    refine ih (by rw [hleft]; omega) ?_
    rw [hleft]
    by_cases ha : 0 < a
    · rw [List.filter_cons_of_pos (by simpa using ha), List.length_cons] at henough
      omega
    · rw [List.filter_cons_of_neg (by simpa using ha)] at henough
      omega

/-- Calls of which ever more write come to any number that do. -/
theorem writes_enough {calls : Nat → Writev} (hwrites : ∀ i, ∃ j ≥ i, (calls j).Writes) (m : Nat) :
    ∃ k, m ≤ ((((List.range k).map calls).map Writev.takes).filter (0 < ·)).length := by
  induction m with
  | zero => exact ⟨0, Nat.zero_le _⟩
  | succ m ih =>
    obtain ⟨k, hk⟩ := ih
    obtain ⟨j, hj, hwrite⟩ := hwrites k
    have htakes : 0 < (calls j).takes := by
      generalize calls j = w at hwrite
      cases w with
      | wrote most => exact hwrite
      | interrupted => exact absurd hwrite id
      | wouldBlock ready => exact absurd hwrite id
      | failed => exact absurd hwrite id
    refine ⟨j + 1, ?_⟩
    obtain ⟨d, rfl⟩ := Nat.exists_eq_add_of_le hj
    rw [List.range_succ, List.range_add]
    simp only [List.map_append, List.filter_append, List.length_append, List.map_cons, List.map_nil]
    rw [List.filter_cons_of_pos (by simpa using htakes), List.length_cons]
    omega

/-! ### The whole send -/

/-- The calls of a connection that stays up: each goes on, and ever more of them write. -/
structure Steady (calls : Nat → Writev) : Prop where
  goes : ∀ i, (calls i).Goes
  writes : ∀ i, ∃ j ≥ i, (calls j).Writes

theorem Steady.front {calls : Nat → Writev} (h : Steady calls) (k : Nat) :
    ∀ w ∈ (List.range k).map calls, w.Goes := by
  intro w hw
  obtain ⟨i, -, rfl⟩ := List.mem_map.mp hw
  exact h.goes i

/-- **Over a connection that stays up, `SendV` ends with all bytes of all buffers sent, and
returns their number, exactly if the buffers behind the 64th are empty.** -/
theorem sends_all_iff (iov : List Bytes) (calls : Nat → Writev) (hsteady : Steady calls) :
    (∃ k, sendVAgainst ((List.range k).map calls) iov =
      some ((iov.flatten.length : Int), iov.flatten)) ↔ Fits iov := by
  obtain ⟨hall, hreturns⟩ := sendV_returns_iff iov
  constructor
  · rintro ⟨k, hk⟩
    rw [sendVAgainst_eq (hsteady.front k)] at hk
    obtain ⟨bytes, hbytes, -⟩ := Option.map_eq_some_iff.mp hk
    exact hreturns.mp ⟨_, hall _ _ hbytes ▸ hbytes⟩
  · intro hfits
    have hsame : iov.flatten = (iov.take 64).flatten := by
      rw [← List.take_append_drop 64 iov, List.flatten_append, hfits, List.append_nil,
        List.take_append_drop]
    obtain ⟨k, hk⟩ := writes_enough hsteady.writes (iov.take 64).flatten.length
    obtain ⟨bytes, hbytes⟩ : ∃ bytes,
        sendV (((List.range k).map calls).map Writev.takes) iov = some bytes :=
      sendVLoop_enough (by rw [hsame, Nat.zero_add]) hk
    refine ⟨k, ?_⟩
    rw [sendVAgainst_eq (hsteady.front k), hbytes, Option.map_some, hall _ _ hbytes]

/-- A connection on which a call is interrupted, the next finds it full for a while, and the
third takes up to five bytes. -/
def threeTurns (i : Nat) : Writev :=
  match i % 3 with
  | 0 => .interrupted
  | 1 => .wouldBlock true
  | _ => .wrote 5

theorem steady_threeTurns : Steady threeTurns where
  goes := by
    intro i
    unfold threeTurns
    split
    · trivial
    · rfl
    · exact Nat.succ_pos 4
  writes := by
    intro i
    refine ⟨3 * i + 2, by omega, ?_⟩
    have hmod : (3 * i + 2) % 3 = 2 := by omega
    unfold threeTurns
    rw [hmod]
    exact Nat.succ_pos 4

/-- Eight bytes in two buffers, with an empty one between them. -/
theorem sends_all_iff_threeTurns :
    (∃ k, sendVAgainst ((List.range k).map threeTurns) [[1, 2, 3, 4], [], [5, 6, 7, 8]] =
      some (8, [1, 2, 3, 4, 5, 6, 7, 8])) ↔ Fits [[1, 2, 3, 4], [], [5, 6, 7, 8]] :=
  sends_all_iff [[1, 2, 3, 4], [], [5, 6, 7, 8]] threeTurns steady_threeTurns

/-- Of 65 buffers with a byte each the last is not sent: once the others are, `writev` has no
buffer left to take from, and the loop makes the call again and again. -/
theorem last_buffer_not_sent :
    Steady threeTurns ∧
      ¬∃ k, sendVAgainst ((List.range k).map threeTurns) (List.replicate 65 [7]) =
        some (65, (List.replicate 65 [7]).flatten) := by
  refine ⟨steady_threeTurns, fun ⟨k, hk⟩ => ?_⟩
  rw [sendVAgainst_eq (steady_threeTurns.front k)] at hk
  obtain ⟨bytes, hbytes, -⟩ := Option.map_eq_some_iff.mp hk
  obtain ⟨hall, hreturns⟩ := sendV_returns_iff (List.replicate 65 [7])
  have hfits : Fits (List.replicate 65 [7]) := hreturns.mp ⟨_, hall _ _ hbytes ▸ hbytes⟩
  exact absurd (show (List.drop 64 (List.replicate 65 [(7 : UInt8)])).flatten = [] from hfits)
    (by decide)

end Lightbeam
end IowarpCore
