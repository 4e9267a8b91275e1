/-
Composite keys determine the tag and the name.

A key is two decimal numbers, each with a dot behind it, and then the name.  Digits are
not dots, so the first dot of a key ends the first number and the second ends the second,
whatever bytes the name has.  From this one cut come the three facts the rest needs: a
key determines its tag id and name, a key starts with the prefix of the tag it was built
for and of no other, and the parser of `FlushData` reads the tag id back.
-/
import IowarpCore.Cte.State

namespace IowarpCore
namespace Cte

/-! ### Decimal numbers -/

theorem decimalFuel_append (fuel : Nat) : ∀ (n : Nat) (acc : Bytes),
    decimalFuel fuel n acc = decimalFuel fuel n [] ++ acc := by
  induction fuel with
  | zero => intro n acc; rfl
  | succ fuel ih =>
    intro n acc
    unfold decimalFuel
    by_cases h : n / 10 = 0
    · simp [h]
    · simp only [h, if_false]
      rw [ih _ (_ :: acc), ih _ [_], List.append_assoc]
      rfl

theorem digit_toNat (n : Nat) : (UInt8.ofNat (48 + n % 10)).toNat = 48 + n % 10 := by
  rw [UInt8.toNat_ofNat']
  omega

/-- Digits only. -/
theorem decimalFuel_digits (fuel : Nat) : ∀ (n : Nat), ∀ d ∈ decimalFuel fuel n [], d ≠ dot := by
  induction fuel with
  | zero => intro n d hd; simp [decimalFuel] at hd
  | succ fuel ih =>
    intro n d hd
    have hdigit : UInt8.ofNat (48 + n % 10) ≠ dot := by
      intro h
      have := congrArg UInt8.toNat h
      rw [digit_toNat] at this
      simp only [dot, UInt8.toNat_ofNat] at this
      omega
    unfold decimalFuel at hd
    by_cases h : n / 10 = 0
    · simp only [h, if_true, List.mem_singleton] at hd
      rw [hd]
      exact hdigit
    · simp only [h, if_false] at hd
      rw [decimalFuel_append, List.mem_append, List.mem_singleton] at hd
      rcases hd with hd | hd
      · exact ih _ d hd
      · rw [hd]
        exact hdigit

/-- The digits spell the number, if there is room for all of them. -/
theorem decValue_decimalFuel (fuel : Nat) : ∀ (n : Nat), n < 10 ^ fuel →
    decValue (decimalFuel fuel n []) = n := by
  induction fuel with
  | zero =>
    intro n h
    have : n = 0 := by omega
    rw [this]
    rfl
  | succ fuel ih =>
    intro n h
    unfold decimalFuel
    by_cases hn : n / 10 = 0
    · simp only [hn, if_true, decValue, List.foldl_cons, List.foldl_nil, digit_toNat]
      omega
    · have hlt : n / 10 < 10 ^ fuel := by
        rw [Nat.pow_succ] at h
        omega
      have hrec := ih (n / 10) hlt
      simp only [hn, if_false]
      rw [decimalFuel_append]
      simp only [decValue, List.foldl_append, List.foldl_cons, List.foldl_nil,
        digit_toNat] at hrec ⊢
      rw [hrec]
      omega

theorem decValue_toDecimal (n : UInt32) : decValue (toDecimal n) = n.toNat := by
  have hlt : n.toNat < 10 ^ 10 := by
    have := n.toNat_lt
    omega
  exact decValue_decimalFuel 10 n.toNat hlt

theorem dot_not_mem_toDecimal (n : UInt32) : dot ∉ toDecimal n := by
  intro h
  exact decimalFuel_digits 10 n.toNat dot h rfl

theorem toDecimal_inj {m n : UInt32} (h : toDecimal m = toDecimal n) : m = n := by
  apply UInt32.toNat_inj.mp
  rw [← decValue_toDecimal, ← decValue_toDecimal, h]

/-! ### Cutting at the first dot -/

theorem takeWhile_ne_dot {a x : Bytes} (h : dot ∉ a) :
    (a ++ dot :: x).takeWhile (· ≠ dot) = a := by
  rw [List.takeWhile_append_of_pos]
  · simp
  · intro b hb
    simp only [decide_not, Bool.not_eq_eq_eq_not, Bool.not_true, decide_eq_false_iff_not]
    intro hbd
    rw [hbd] at hb
    exact h hb

theorem dropWhile_ne_dot {a x : Bytes} (h : dot ∉ a) :
    (a ++ dot :: x).dropWhile (· ≠ dot) = dot :: x := by
  rw [List.dropWhile_append_of_pos]
  · simp
  · intro b hb
    simp only [decide_not, Bool.not_eq_eq_eq_not, Bool.not_true, decide_eq_false_iff_not]
    intro hbd
    rw [hbd] at hb
    exact h hb

theorem append_dot_inj {a b x y : Bytes} (ha : dot ∉ a) (hb : dot ∉ b)
    (h : a ++ dot :: x = b ++ dot :: y) : a = b ∧ x = y := by
  have htake := congrArg (List.takeWhile (· ≠ dot)) h
  rw [takeWhile_ne_dot ha, takeWhile_ne_dot hb] at htake
  subst htake
  simpa using h

/-! ### Composite keys -/

theorem compositeKey_eq (t : TagId) (name : Bytes) :
    compositeKey t name = toDecimal t.major ++ dot :: (toDecimal t.minor ++ dot :: name) := by
  simp [compositeKey, tagPrefix, List.append_assoc]

/-- A key determines the tag id and the name it was built from. -/
theorem compositeKey_inj {t t' : TagId} {name name' : Bytes}
    (h : compositeKey t name = compositeKey t' name') : t = t' ∧ name = name' := by
  rw [compositeKey_eq, compositeKey_eq] at h
  obtain ⟨hmajor, h⟩ := append_dot_inj (dot_not_mem_toDecimal _) (dot_not_mem_toDecimal _) h
  obtain ⟨hminor, hname⟩ := append_dot_inj (dot_not_mem_toDecimal _) (dot_not_mem_toDecimal _) h
  obtain ⟨major, minor⟩ := t
  obtain ⟨major', minor'⟩ := t'
  simp only at hmajor hminor
  rw [toDecimal_inj hmajor, toDecimal_inj hminor]
  exact ⟨rfl, hname⟩

/-- A key starts with the prefix of its own tag only. -/
theorem hasTagPrefix_compositeKey (t t' : TagId) (name : Bytes) :
    hasTagPrefix t (compositeKey t' name) = true ↔ t = t' := by
  unfold hasTagPrefix
  rw [List.isPrefixOf_iff_prefix]
  refine ⟨?_, ?_⟩
  · rintro ⟨rest, hrest⟩
    exact (compositeKey_inj hrest).1
  · intro h
    rw [h]
    exact ⟨name, rfl⟩

/-- The parser of `FlushData` reads back the tag id. -/
theorem parseTagId_compositeKey (t : TagId) (name : Bytes) :
    parseTagId (compositeKey t name) = t := by
  rw [compositeKey_eq]
  unfold parseTagId
  rw [takeWhile_ne_dot (dot_not_mem_toDecimal _), dropWhile_ne_dot (dot_not_mem_toDecimal _)]
  simp only [List.mem_append, List.mem_cons, true_or, or_true, if_true]
  rw [takeWhile_ne_dot (dot_not_mem_toDecimal _), decValue_toDecimal, decValue_toDecimal]
  simp

end Cte
end IowarpCore
