/-
Regular expressions of a fragment of ECMAScript.

A pattern is a sequence of anchors and of atoms, each once, any number of times, or at least
once.  Atoms are characters, the dot, and a class that excludes one character.  There are
two phases, as in an implementation: a scanner makes tokens of the characters, and then the
quantifiers find their atoms.  Groups, alternatives, counted repetitions and other classes
are not of the fragment; a pattern with one of them is not parsed.

A match is a match of the whole string.  Terms run with a continuation, so a repetition
tries every length.
-/
import Mathlib.Data.List.Basic

namespace IowarpCore
namespace Regex

/-! ### Patterns -/

inductive Atom where
  | char (c : Char)
  /-- The dot: every character but a line terminator. -/
  | any
  /-- `[^c]`. -/
  | notIn (c : Char)
deriving DecidableEq, Repr

inductive Term where
  | bol
  | eol
  | one (a : Atom)
  | star (a : Atom)
  | plus (a : Atom)
deriving DecidableEq, Repr

/-- Line terminators among the characters of a byte string. -/
def lineTerminator (c : Char) : Bool :=
  c == '\n' || c == '\r'

def Atom.accepts : Atom → Char → Bool
  | .char d, c => c == d
  | .any, c => !lineTerminator c
  | .notIn d, c => c != d

/-! ### Matching -/

/-- Any number of characters that `p` accepts, and then `k`. -/
def loop (p : Char → Bool) (k : List Char → Bool) : List Char → Bool
  | [] => k []
  | c :: s => k (c :: s) || (p c && loop p k s)

/-- A term, and then the rest of the pattern; the flag says whether the string is at its start. -/
def Term.run (t : Term) (k : Bool → List Char → Bool) (start : Bool) (s : List Char) : Bool :=
  match t with
  | .bol => start && k start s
  | .eol => s.isEmpty && k start s
  | .one a =>
    match s with
    | [] => false
    | c :: s => a.accepts c && k false s
  | .plus a =>
    match s with
    | [] => false
    | c :: s => a.accepts c && loop a.accepts (k false) s
  | .star a =>
    k start s ||
      match s with
      | [] => false
      | c :: s => a.accepts c && loop a.accepts (k false) s

/-- The terms match the string to its end. -/
def runs (ts : List Term) (start : Bool) (s : List Char) : Bool :=
  ts.foldr Term.run (fun _ s => s.isEmpty) start s

/-- `regex_match`. -/
def regexMatch (ts : List Term) (s : List Char) : Bool :=
  runs ts true s

theorem loop_iff {p : Char → Bool} {k : List Char → Bool} {s : List Char} :
    loop p k s = true ↔ ∃ a b, s = a ++ b ∧ (∀ c ∈ a, p c = true) ∧ k b = true := by
  induction s with
  | nil =>
    constructor
    · exact fun h => ⟨[], [], rfl, List.forall_mem_nil _, h⟩
    · rintro ⟨a, b, hab, -, hk⟩
      obtain ⟨-, rfl⟩ := List.append_eq_nil_iff.mp hab.symm
      exact hk
  | cons c s ih =>
    unfold loop
    rw [Bool.or_eq_true, Bool.and_eq_true, ih]
    constructor
    · rintro (hk | ⟨hc, a, b, rfl, ha, hk⟩)
      · exact ⟨[], c :: s, rfl, List.forall_mem_nil _, hk⟩
      · exact ⟨c :: a, b, rfl, List.forall_mem_cons.mpr ⟨hc, ha⟩, hk⟩
    · rintro ⟨a, b, hab, ha, hk⟩
      cases a with
      | nil =>
        left
        rw [hab]
        exact hk
      | cons d a =>
        obtain ⟨rfl, rfl⟩ := List.cons.inj hab
        exact Or.inr ⟨ha c List.mem_cons_self, a, b, rfl,
          fun x hx => ha x (List.mem_cons_of_mem _ hx), hk⟩

section

variable {ts : List Term} {start : Bool} {s : List Char}

@[simp] theorem runs_nil : runs [] start s = s.isEmpty := rfl

theorem runs_cons (t : Term) : runs (t :: ts) start s = t.run (runs ts) start s := rfl

@[simp] theorem runs_bol : runs (.bol :: ts) start s = (start && runs ts start s) := rfl

@[simp] theorem runs_eol : runs (.eol :: ts) start s = (s.isEmpty && runs ts start s) := rfl

theorem runs_plus_iff {a : Atom} :
    runs (.plus a :: ts) start s = true ↔
      ∃ x y, s = x ++ y ∧ x ≠ [] ∧ (∀ c ∈ x, a.accepts c = true) ∧ runs ts false y = true := by
  rw [runs_cons]
  cases s with
  | nil =>
    refine ⟨fun h => (by cases h), ?_⟩
    rintro ⟨x, y, hxy, hx, -⟩
    exact absurd (List.append_eq_nil_iff.mp hxy.symm).1 hx
  | cons c s =>
    simp only [Term.run]
    rw [Bool.and_eq_true, loop_iff]
    constructor
    · rintro ⟨hc, x, y, rfl, hx, hy⟩
      exact ⟨c :: x, y, rfl, List.cons_ne_nil c x, List.forall_mem_cons.mpr ⟨hc, hx⟩, hy⟩
    · rintro ⟨x, y, hxy, hne, hx, hy⟩
      cases x with
      | nil => exact absurd rfl hne
      | cons d x =>
        obtain ⟨rfl, rfl⟩ := List.cons.inj hxy
        exact ⟨hx c List.mem_cons_self, x, y, rfl,
          fun e he => hx e (List.mem_cons_of_mem _ he), hy⟩

/-- A repetition at the end of the pattern. -/
theorem runs_star_last_iff {a : Atom} :
    runs [.star a] start s = true ↔ ∀ c ∈ s, a.accepts c = true := by
  rw [runs_cons]
  cases s with
  | nil => simp [Term.run]
  | cons c s =>
    simp only [Term.run, runs_nil]
    rw [Bool.or_eq_true, Bool.and_eq_true, loop_iff, List.forall_mem_cons]
    constructor
    · rintro (hnil | ⟨hc, x, y, rfl, hx, hy⟩)
      · cases hnil
      · rw [List.isEmpty_iff.mp hy, List.append_nil]
        exact ⟨hc, hx⟩
    · rintro ⟨hc, hs⟩
      exact Or.inr ⟨hc, s, [], (List.append_nil s).symm, hs, rfl⟩

/-- Characters that stand for themselves. -/
theorem runs_chars_iff (x : List Char) :
    runs (x.map (Term.one ∘ Atom.char) ++ ts) start s = true ↔
      ∃ y, s = x ++ y ∧ runs ts (start && x.isEmpty) y = true := by
  induction x generalizing start s with
  | nil =>
    rw [List.map_nil, List.nil_append, List.isEmpty_nil, Bool.and_true]
    constructor
    · exact fun h => ⟨s, rfl, h⟩
    · rintro ⟨y, rfl, h⟩
      exact h
  | cons d x ih =>
    rw [List.map_cons, List.cons_append, runs_cons, List.isEmpty_cons, Bool.and_false]
    cases s with
    | nil =>
      refine ⟨fun h => (by cases h), ?_⟩
      rintro ⟨y, hy, -⟩
      cases hy
    | cons c s =>
      simp only [Term.run, Function.comp_apply, Atom.accepts]
      rw [Bool.and_eq_true, beq_iff_eq, ih, Bool.false_and]
      constructor
      · rintro ⟨rfl, y, rfl, hy⟩
        exact ⟨y, rfl, hy⟩
      · rintro ⟨y, hy, hruns⟩
        obtain ⟨rfl, rfl⟩ := List.cons.inj hy
        exact ⟨rfl, y, rfl, hruns⟩

end

/-! ### Parsing -/

/-- The characters of the syntax. -/
def syntaxChar (c : Char) : Bool :=
  c ∈ ['.', '[', ']', '(', ')', '\x7b', '\x7d', '+', '*', '?', '\\', '^', '$', '|']

inductive Token where
  | atom (a : Atom)
  | bol
  | eol
  | star
  | plus
deriving DecidableEq, Repr

/-- The scanner.  An escaped character of the syntax stands for itself. -/
def tokenize : List Char → Option (List Token)
  | [] => some []
  | c :: s =>
    if syntaxChar c = false then (tokenize s).map (.atom (.char c) :: ·)
    else if c = '\\' then
      match s with
      | [] => none
      | d :: s => if syntaxChar d then (tokenize s).map (.atom (.char d) :: ·) else none
    else if c = '^' then (tokenize s).map (.bol :: ·)
    else if c = '$' then (tokenize s).map (.eol :: ·)
    else if c = '.' then (tokenize s).map (.atom .any :: ·)
    else if c = '*' then (tokenize s).map (.star :: ·)
    else if c = '+' then (tokenize s).map (.plus :: ·)
    else if c = '[' then
      match s with
      | n :: d :: e :: s =>
        if n = '^' ∧ syntaxChar d = false ∧ e = ']' then
          (tokenize s).map (.atom (.notIn d) :: ·)
        else none
      | _ => none
    else none

/-- The quantifiers are attached to their atoms. -/
def quantify : List Token → Option (List Term)
  | [] => some []
  | .atom a :: .star :: ts => (quantify ts).map (.star a :: ·)
  | .atom a :: .plus :: ts => (quantify ts).map (.plus a :: ·)
  | .atom a :: ts => (quantify ts).map (.one a :: ·)
  | .bol :: ts => (quantify ts).map (.bol :: ·)
  | .eol :: ts => (quantify ts).map (.eol :: ·)
  | .star :: _ => none
  | .plus :: _ => none

/-- The constructor of `std::regex`. -/
def parse (s : List Char) : Option (List Term) :=
  (tokenize s).bind quantify

theorem tokenize_ordinary {c : Char} (s : List Char) (h : syntaxChar c = false) :
    tokenize (c :: s) = (tokenize s).map (.atom (.char c) :: ·) := by
  rw [tokenize.eq_def]
  exact if_pos h

theorem tokenize_escaped {c : Char} (s : List Char) (h : syntaxChar c = true) :
    tokenize ('\\' :: c :: s) = (tokenize s).map (.atom (.char c) :: ·) := by
  rw [tokenize.eq_def]
  simp only [show syntaxChar '\\' = true by decide, h, if_true, Bool.true_eq_false, if_false]

/-- An anchor before a pattern. -/
theorem parse_bol (s : List Char) : parse ('^' :: s) = (parse s).map (.bol :: ·) := by
  have htokens : tokenize ('^' :: s) = (tokenize s).map (.bol :: ·) := by
    rw [tokenize.eq_def]
    simp only [show syntaxChar '^' = true by decide, show ('^' : Char) ≠ '\\' by decide,
      Bool.true_eq_false, if_true, if_false]
  unfold parse
  rw [htokens]
  cases tokenize s with
  | none => rfl
  | some tokens => rfl

theorem quantify_char {c : Char} {ts : List Token} (hstar : ts.head? ≠ some .star)
    (hplus : ts.head? ≠ some .plus) :
    quantify (.atom (.char c) :: ts) = (quantify ts).map (.one (.char c) :: ·) := by
  cases ts with
  | nil => rfl
  | cons t ts =>
    cases t with
    | star => exact absurd rfl hstar
    | plus => exact absurd rfl hplus
    | atom a => rfl
    | bol => rfl
    | eol => rfl

theorem quantify_chars (x : List Char) {ts : List Token} (hstar : ts.head? ≠ some .star)
    (hplus : ts.head? ≠ some .plus) :
    quantify (x.map (Token.atom ∘ Atom.char) ++ ts) =
      (quantify ts).map (x.map (Term.one ∘ Atom.char) ++ ·) := by
  induction x with
  | nil => simp
  | cons c x ih =>
    have hhead : ∀ t, t = Token.star ∨ t = Token.plus →
        (x.map (Token.atom ∘ Atom.char) ++ ts).head? ≠ some t := by
      intro t ht
      cases x with
      | nil =>
        rcases ht with rfl | rfl
        · exact hstar
        · exact hplus
      | cons d x => rcases ht with rfl | rfl <;> simp
    rw [List.map_cons, List.cons_append, Function.comp_apply,
      quantify_char (hhead _ (Or.inl rfl)) (hhead _ (Or.inr rfl)), ih, Option.map_map]
    rfl

end Regex
end IowarpCore
