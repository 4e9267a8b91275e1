/-
Host name expansion and the grammar of host names.

On a string of the grammar each step of the parser is known: the delimiters occur nowhere
else, so the pieces are the items and the ranges (`parseRange_text`, `expandHost_text`), and a
range comes to its names unless its loop reaches the largest `int`.  What the string comes to
is therefore written down from the items alone (`parseHostNameString_text`).  It has at least
as many names as the items stand for, item by item, so it is right only if each item is.
-/
import IowarpCore.Util.ConfigParse
import Mathlib.Data.List.TakeWhile

namespace IowarpCore
namespace ConfigParse

/-! ### The grammar -/

/-- A number of a range, which is an `int`. -/
structure Num where
  text : Text
  digits : ∀ c ∈ text, c.isDigit = true
  nonempty : text ≠ []
  small : (Nat.ofDigitChars 10 text 0 : Int) ≤ intMax

namespace Num

def value (n : Num) : Nat := Nat.ofDigitChars 10 n.text 0

end Num

/-- `a` or `a-b`. -/
inductive Range where
  | single (n : Num)
  | span (first last : Num)

namespace Range

def text : Range → Text
  | single n => n.text
  | span first last => first.text ++ '-' :: last.text

def first : Range → Num
  | single n => n
  | span first _ => first

def last : Range → Num
  | single n => n
  | span _ last => last

/-- The digits to pad to: those of the number, or the common number of digits of the two
bounds, or none. -/
def width : Range → Nat
  | single n => n.text.length
  | span first last => if first.text.length = last.text.length then first.text.length else 0

/-- A number of the range, padded. -/
def number (r : Range) (n : Nat) : Text :=
  List.replicate (r.width - (Nat.toDigits 10 n).length) '0' ++ Nat.toDigits 10 n

/-- The numbers of the range, in order. -/
def numbers (r : Range) : List Text :=
  (List.range' r.first.value (r.last.value + 1 - r.first.value)).map r.number

end Range

/-- The characters that mean something to the parser. -/
def special : List Char :=
  ['[', ']', ';', ' ', '\n', '\r', '\t']

/-- A piece of a host name. -/
structure Word where
  text : Text
  plain : ∀ c ∈ text, c ∉ special

inductive Item where
  | name (w : Word)
  | group (pre : Word) (ranges : List Range) (suf : Word)

namespace Item

def text : Item → Text
  | name w => w.text
  | group pre ranges suf =>
    pre.text ++ '[' :: ([','].intercalate (ranges.map Range.text) ++ ']' :: suf.text)

/-- The host names an item stands for; an empty item stands for none. -/
def names : Item → List Text
  | name w => if w.text = [] then [] else [w.text]
  | group pre ranges suf =>
    ranges.flatMap fun r => r.numbers.map fun number => pre.text ++ number ++ suf.text

def ranges : Item → List Range
  | name _ => []
  | group _ ranges _ => ranges

end Item

/-- The string of a list of items. -/
def itemsText (items : List Item) : Text :=
  [';'].intercalate (items.map Item.text)

/-- The string is a list of items, with whitespace anywhere. -/
def Written (str : Text) (items : List Item) : Prop :=
  strip str = itemsText items

/-! ### Finding the delimiters -/

variable {c : Char} {s t : Text} {items : List Item}

theorem idxOf?_append_cons (h : c ∉ s) : (s ++ c :: t).idxOf? c = some s.length := by
  induction s with
  | nil => simp [List.idxOf?_cons]
  | cons d s ih =>
    have hd : (d == c) = false := by
      simpa using fun heq : d = c => h (heq ▸ List.mem_cons_self)
    rw [List.cons_append, List.idxOf?_cons, hd, if_neg (by decide),
      ih fun hc => h (List.mem_cons_of_mem _ hc), Option.map_some, List.length_cons]

theorem findLastOf_append_cons (h : c ∉ t) :
    findLastOf (s ++ c :: t) c = some s.length := by
  have hrev : (s ++ c :: t).reverse = t.reverse ++ c :: s.reverse := by simp
  unfold findLastOf
  rw [hrev, idxOf?_append_cons (by simpa using h), Option.map_some]
  simp only [List.length_append, List.length_cons, List.length_reverse]
  congr 1
  omega

theorem rmChar_eq_self (h : c ∉ s) : rmChar s c = s := by
  refine List.filter_eq_self.mpr fun d hd => ?_
  simpa using fun heq : d = c => h (heq ▸ hd)

/-! ### Numbers -/

theorem isSpace_of_isDigit (h : c.isDigit = true) : isSpace c = false := by
  rw [Bool.eq_false_iff]
  intro hspace
  have hmem : c ∈ [' ', '\t', '\n', '\x0b', '\x0c', '\r'] := List.contains_iff_mem.mp hspace
  have hnot : [' ', '\t', '\n', '\x0b', '\x0c', '\r'].all (fun c => !c.isDigit) = true := by decide
  have hc := List.all_eq_true.mp hnot c hmem
  rw [h] at hc
  cases hc

namespace Num

variable (n : Num)

theorem not_mem {c : Char} (hc : c.isDigit = false) : c ∉ n.text := fun hmem => by
  rw [n.digits c hmem] at hc
  cases hc

/-- The number is read as it is. -/
theorem readInt_text : readInt n.text = n.value := by
  have hdrop : n.text.dropWhile isSpace = n.text := by
    obtain ⟨c, t, htext⟩ := List.exists_cons_of_ne_nil n.nonempty
    have hc : isSpace c = false := isSpace_of_isDigit (n.digits c (htext ▸ List.mem_cons_self))
    rw [htext, List.dropWhile_cons_of_neg (by rw [hc]; decide)]
  have htake : n.text.takeWhile Char.isDigit = n.text := List.takeWhile_eq_self_iff.mpr n.digits
  have hsign {c : Char} {t : Text} (htext : n.text = c :: t) (hc : c.isDigit = false) : False :=
    n.not_mem hc (htext ▸ List.mem_cons_self)
  unfold readInt
  rw [hdrop]
  dsimp only
  split
  · rename_i htext
    exact (hsign htext (by decide)).elim
  · rename_i htext
    exact (hsign htext (by decide)).elim
  · rw [htake]
    exact Int.min_eq_right n.small

end Num

/-! ### One range -/

namespace Range

/-- What the parser makes of a range. -/
def tuple (r : Range) : RangeTuple :=
  ⟨r.first.value, r.last.value, toInt r.width⟩

theorem not_mem_text (r : Range) {c : Char} (hc : c.isDigit = false) (hdash : c ≠ '-') :
    c ∉ r.text := by
  cases r with
  | single n => exact n.not_mem hc
  | span first last =>
    rw [text, List.mem_append, List.mem_cons, not_or, not_or]
    exact ⟨first.not_mem hc, hdash, last.not_mem hc⟩

theorem parseRange_text (r : Range) : parseRange r.text = some r.tuple := by
  unfold parseRange
  rw [rmChar_eq_self (r.not_mem_text (by decide) (by decide))]
  dsimp only
  cases r with
  | single n =>
    have hdash : findFirstOf n.text '-' = none := List.idxOf?_eq_none_iff.mpr (n.not_mem (by decide))
    rw [text, hdash]
    dsimp only
    rw [if_pos n.nonempty, n.readInt_text]
    rfl
  | span first last =>
    have hdash : findFirstOf (first.text ++ '-' :: last.text) '-' = some first.text.length :=
      idxOf?_append_cons (first.not_mem (by decide))
    rw [text, hdash]
    dsimp only
    rw [List.take_left, List.drop_append, Nat.sub_eq_of_eq_add (Nat.add_comm _ 1), List.drop_one,
      List.drop_eq_nil_of_le (Nat.le_succ _), List.nil_append, List.tail_cons,
      first.readInt_text, last.readInt_text]
    unfold tuple width
    by_cases hwidth : first.text.length = last.text.length
    · rw [if_pos hwidth]
      dsimp only
      rw [if_pos hwidth]
      rfl
    · rw [if_neg hwidth]
      dsimp only
      rw [if_neg hwidth]
      rfl

end Range

/-! ### The loop over a range -/

section

variable {pre suf : Text} {range : RangeTuple}

/-- A loop that stays below the largest `int` comes to the names of its numbers. -/
theorem hostLoop_eq (hmax : range.max < intMax) {k fuel : Nat} (hfuel : k < fuel) {i : Nat}
    (hk : k = (range.max + 1 - i).toNat) :
    hostLoop pre suf range fuel i =
      some ((List.range' i k).map fun n : Nat => pre ++ padded range.numWidth n ++ suf) := by
  induction k generalizing fuel i with
  | zero =>
    obtain ⟨fuel, rfl⟩ := Nat.exists_eq_succ_of_ne_zero (Nat.ne_of_gt hfuel)
    rw [hostLoop, if_neg (by omega)]
    rfl
  | succ k ih =>
    obtain ⟨fuel, rfl⟩ := Nat.exists_eq_succ_of_ne_zero (Nat.ne_of_gt (Nat.lt_of_le_of_lt (Nat.zero_le _) hfuel))
    have hincr : incr (i : Int) = ((i + 1 : Nat) : Int) := by
      unfold incr
      rw [if_neg (by omega)]
      rfl
    rw [hostLoop, if_pos (by omega), hincr, ih (by omega) (by omega), Option.map_some, List.range'_succ,
      List.map_cons]

theorem incr_le {i : Int} (hi : i ≤ intMax) : incr i ≤ intMax := by
  unfold incr
  split
  · decide
  · omega

/-- A loop up to the largest `int` goes on for ever. -/
theorem hostLoop_forever (hmax : range.max = intMax) (fuel : Nat) {i : Int} (hi : i ≤ intMax) :
    hostLoop pre suf range fuel i = none := by
  induction fuel generalizing i with
  | zero => rfl
  | succ fuel ih =>
    rw [hostLoop, if_pos (by omega), ih (incr_le hi)]
    rfl

end

/-! ### What the parser makes of an item -/

/-- The names that the loop over a range appends, `none` if it goes on for ever. -/
def Range.printed (r : Range) (pre suf : Text) : Option (List Text) :=
  if r.first.value ≤ r.last.value ∧ (r.last.value : Int) = intMax then none
  else some ((List.range' r.first.value (r.last.value + 1 - r.first.value)).map fun n : Nat =>
    pre ++ padded (toInt r.width) n ++ suf)

def Item.printed : Item → Option (List Text)
  | .name w => some [w.text]
  | .group pre ranges suf => collect (fun r => r.printed pre.text suf.text) ranges

/-- A computation with so many turns for each loop comes to the result: from some number of turns
on if there is one, and otherwise never. -/
def Comes {α : Type} (run : Nat → Option α) (result : Option α) : Prop :=
  match result with
  | none => ∀ fuel, run fuel = none
  | some a => ∃ enough, ∀ fuel ≥ enough, run fuel = some a

theorem Range.comes (r : Range) (pre suf : Text) :
    Comes (fun fuel => hostLoop pre suf r.tuple fuel r.tuple.min) (r.printed pre suf) := by
  have hsmall : (r.last.value : Int) ≤ intMax := r.last.small
  unfold printed
  by_cases hbad : r.first.value ≤ r.last.value ∧ (r.last.value : Int) = intMax
  · rw [if_pos hbad]
    exact fun fuel => hostLoop_forever hbad.2 fuel r.first.small
  · rw [if_neg hbad]
    refine ⟨r.last.value + 1 - r.first.value + 1, fun fuel hfuel => ?_⟩
    show hostLoop pre suf r.tuple fuel (r.first.value : Int) = _
    by_cases hmax : r.tuple.max < intMax
    · refine hostLoop_eq hmax hfuel ?_
      show _ = ((r.last.value : Int) + 1 - r.first.value).toNat
      omega
    · -- the range has no number, and its loop ends at once
      have hlt : r.last.value < r.first.value := by
        refine Nat.lt_of_not_le fun hle => hbad ⟨hle, ?_⟩
        have hge : intMax ≤ (r.last.value : Int) := Int.not_lt.mp hmax
        omega
      have hnot : ¬(r.first.value : Int) ≤ r.tuple.max := by
        show ¬(r.first.value : Int) ≤ r.last.value
        omega
      cases fuel with
      | zero => omega
      | succ fuel =>
        rw [hostLoop, if_neg hnot, Nat.sub_eq_zero_of_le (by omega)]
        rfl

/-- A loop over bodies that come to their results. -/
theorem comes_collect {α : Type} {body : Nat → α → Option (List Text)}
    {result : α → Option (List Text)} {xs : List α}
    (h : ∀ x ∈ xs, Comes (fun fuel => body fuel x) (result x)) :
    Comes (fun fuel => collect (body fuel) xs) (collect result xs) := by
  induction xs with
  | nil => exact ⟨0, fun _ _ => rfl⟩
  | cons x xs ih =>
    have hx := h x List.mem_cons_self
    have hrest := ih fun y hy => h y (List.mem_cons_of_mem _ hy)
    simp only [collect]
    cases hres : result x with
    | none =>
      have hx : ∀ fuel, body fuel x = none := by rwa [hres] at hx
      intro fuel
      dsimp only
      rw [hx fuel]
      rfl
    | some hosts =>
      obtain ⟨enough, hx⟩ : ∃ enough, ∀ fuel ≥ enough, body fuel x = some hosts := by
        rwa [hres] at hx
      cases hxs : collect result xs with
      | none =>
        have hrest : ∀ fuel, collect (body fuel) xs = none := by rwa [hxs] at hrest
        intro fuel
        dsimp only
        rw [hrest fuel]
        cases body fuel x with
        | none => rfl
        | some hosts => rfl
      | some rest =>
        obtain ⟨enough', hrest⟩ : ∃ enough, ∀ fuel ≥ enough,
            collect (body fuel) xs = some rest := by
          rwa [hxs] at hrest
        refine ⟨max enough enough', fun fuel hfuel => ?_⟩
        dsimp only
        rw [hx fuel (by omega), hrest fuel (by omega)]
        rfl

theorem collect_map {α β : Type} (body : β → Option (List Text)) (f : α → β) (xs : List α) :
    collect body (xs.map f) = collect (fun x => body (f x)) xs := by
  induction xs with
  | nil => rfl
  | cons x xs ih => rw [List.map_cons, collect, collect, ih]

theorem Word.not_mem (w : Word) (hc : c ∈ special) : c ∉ w.text :=
  fun hmem => w.plain c hmem hc

theorem drop_append_cons {n : Nat} (hn : n = s.length) :
    (s ++ c :: t).drop (n + 1) = t := by
  rw [hn, ← List.drop_drop, List.drop_left, List.drop_one, List.tail_cons]

/-- The range list comes apart at its commas. -/
theorem parseRanges_text (ranges : List Range) :
    parseRanges ([','].intercalate (ranges.map Range.text)) = ranges.map Range.tuple := by
  unfold parseRanges getlines
  cases ranges with
  | nil => rfl
  | cons r rs =>
    have hne : (r :: rs).map Range.text ≠ [] := List.cons_ne_nil _ _
    rw [List.splitOn_intercalate ',' ?_ hne, List.filterMap_map]
    · exact (List.filterMap_congr fun r _ => r.parseRange_text).trans
        (congrFun List.filterMap_eq_map _)
    · intro l hl
      obtain ⟨r, -, rfl⟩ := List.mem_map.mp hl
      exact r.not_mem_text (by decide) (by decide)

/-- An item comes to what is printed for it. -/
theorem Item.comes (item : Item) : Comes (fun fuel => expandHost fuel item.text) item.printed := by
  cases item with
  | name w =>
    have hbracket : findFirstOf w.text '[' = none :=
      List.idxOf?_eq_none_iff.mpr (w.not_mem (by decide))
    refine ⟨0, fun fuel _ => ?_⟩
    dsimp only [text]
    unfold expandHost
    rw [hbracket]
  | group pre ranges suf =>
    have hranges : Comes (fun fuel => collect (fun r : Range =>
        hostLoop pre.text suf.text r.tuple fuel r.tuple.min) ranges)
          (collect (fun r => r.printed pre.text suf.text) ranges) :=
      comes_collect fun r _ => r.comes pre.text suf.text
    have hrun : ∀ fuel, expandHost fuel (group pre ranges suf).text =
        collect (fun r : Range => hostLoop pre.text suf.text r.tuple fuel r.tuple.min) ranges := by
      intro fuel
      have hl : findFirstOf (group pre ranges suf).text '[' = some pre.text.length :=
        idxOf?_append_cons (pre.not_mem (by decide))
      have hassoc : (group pre ranges suf).text =
          (pre.text ++ '[' :: [','].intercalate (ranges.map Range.text)) ++ ']' :: suf.text := by
        rw [text, List.append_assoc, List.cons_append]
      have hr : findLastOf (group pre ranges suf).text ']' =
          some (pre.text.length + (1 + ([','].intercalate (ranges.map Range.text)).length)) := by
        rw [hassoc, findLastOf_append_cons (suf.not_mem (by decide)), List.length_append,
          List.length_cons, Nat.add_comm _ 1]
      unfold expandHost
      rw [hl, hr]
      dsimp only
      have hpre : (group pre ranges suf).text.take pre.text.length = pre.text := List.take_left
      have hrest : (group pre ranges suf).text.drop (pre.text.length + 1) =
          [','].intercalate (ranges.map Range.text) ++ ']' :: suf.text :=
        drop_append_cons rfl
      have hsuf : (group pre ranges suf).text.drop
          (pre.text.length + (1 + ([','].intercalate (ranges.map Range.text)).length) + 1) =
            suf.text := by
        rw [hassoc]
        refine drop_append_cons ?_
        rw [List.length_append, List.length_cons, Nat.add_comm 1 _]
      rw [hpre, hrest, hsuf, if_pos (by omega),
        show pre.text.length + (1 + ([','].intercalate (ranges.map Range.text)).length) -
          pre.text.length - 1 = ([','].intercalate (ranges.map Range.text)).length by omega,
        List.take_left, parseRanges_text, collect_map]
    rw [funext hrun]
    exact hranges

/-! ### The whole string -/

theorem Item.not_mem_text (item : Item) : ';' ∉ item.text := by
  cases item with
  | name w => exact w.not_mem (by decide)
  | group pre ranges suf =>
    have hranges : ';' ∉ [','].intercalate (ranges.map Range.text) := by
      intro hmem
      induction ranges with
      | nil => exact List.not_mem_nil hmem
      | cons r rs ih =>
        have hr : ';' ∉ r.text := r.not_mem_text (by decide) (by decide)
        cases rs with
        | nil => exact hr (by simpa using hmem)
        | cons r' rs =>
          rw [List.map_cons, List.map_cons, List.intercalate_cons_cons, List.append_assoc,
            List.mem_append, List.mem_append] at hmem
          rcases hmem with hmem | hmem | hmem
          · exact hr hmem
          · exact absurd (List.mem_singleton.mp hmem) (by decide)
          · exact ih hmem
    rw [text, List.mem_append, List.mem_cons, List.mem_append, List.mem_cons, not_or, not_or, not_or,
      not_or]
    exact ⟨pre.not_mem (by decide), by decide, hranges, by decide, suf.not_mem (by decide)⟩

/-- What is printed for a list of items. -/
def printed (items : List Item) : Option (List Text) :=
  if itemsText items = [] then some [] else collect Item.printed items

/-- A string of the grammar comes to what is printed for its items. -/
theorem parseHostNameString_text {str : Text} (h : Written str items) (list : List Text) :
    Comes (fun fuel => parseHostNameString fuel str list)
      ((printed items).map fun hosts => list ++ hosts) := by
  unfold Written at h
  unfold parseHostNameString printed getlines
  rw [h]
  by_cases hempty : itemsText items = []
  · simp only [if_pos hempty]
    exact ⟨0, fun _ _ => congrArg some (List.append_nil list).symm⟩
  · simp only [if_neg hempty]
    have hitems : items ≠ [] := fun hnil => hempty (hnil ▸ rfl)
    have hsplit : (itemsText items).splitOn ';' = items.map Item.text := by
      refine List.splitOn_intercalate ';' (fun l hl => ?_) (by simpa using hitems)
      obtain ⟨item, -, rfl⟩ := List.mem_map.mp hl
      exact item.not_mem_text
    rw [hsplit]
    simp only [collect_map]
    have hall : Comes (fun fuel => collect (fun item : Item => expandHost fuel item.text) items)
        (collect Item.printed items) :=
      comes_collect fun item _ => item.comes
    cases hres : collect Item.printed items with
    | none =>
      have hall : ∀ fuel, collect (fun item : Item => expandHost fuel item.text) items = none := by
        rwa [hres] at hall
      intro fuel
      dsimp only
      rw [hall fuel]
      rfl
    | some hosts =>
      obtain ⟨enough, hall⟩ : ∃ enough, ∀ fuel ≥ enough,
          collect (fun item : Item => expandHost fuel item.text) items = some hosts := by
        rwa [hres] at hall
      refine ⟨enough, fun fuel hfuel => ?_⟩
      dsimp only
      rw [hall fuel hfuel]
      rfl

theorem Comes.iff_eq {α : Type} {run : Nat → Option α} {result : Option α} (h : Comes run result)
    (a : α) : (∃ enough, ∀ fuel ≥ enough, run fuel = some a) ↔ result = some a := by
  cases result with
  | none =>
    refine iff_of_false ?_ (by simp)
    rintro ⟨enough, ha⟩
    have hnone : run enough = none := h enough
    rw [ha enough (Nat.le_refl _)] at hnone
    cases hnone
  | some b =>
    obtain ⟨enough, hb⟩ := h
    constructor
    · rintro ⟨enough', ha⟩
      rw [← hb (max enough enough') (by omega), ha (max enough enough') (by omega)]
    · intro heq
      exact ⟨enough, fun fuel hfuel => by rw [hb fuel hfuel, heq]⟩

/-! ### What is printed and what the items stand for -/

section

variable {α : Type} {f : α → Option (List Text)} {g : α → List Text} {xs : List α}

/-- Bodies that append at least their names append at least all names. -/
theorem length_le_of_collect (hle : ∀ x ∈ xs, ∀ hosts, f x = some hosts → (g x).length ≤ hosts.length)
    {all : List Text} (h : collect f xs = some all) : (xs.flatMap g).length ≤ all.length := by
  induction xs generalizing all with
  | nil => exact Nat.zero_le _
  | cons x xs ih =>
    rw [collect] at h
    obtain ⟨hosts, hx, h⟩ := Option.bind_eq_some_iff.mp h
    obtain ⟨rest, hxs, rfl⟩ := Option.map_eq_some_iff.mp h
    have hhead := hle x List.mem_cons_self hosts hx
    have htail := ih (fun y hy => hle y (List.mem_cons_of_mem _ hy)) hxs
    rw [List.flatMap_cons, List.length_append, List.length_append]
    omega

/-- Such bodies append exactly all names only if each appends exactly its own. -/
theorem collect_eq_iff
    (hle : ∀ x ∈ xs, ∀ hosts, f x = some hosts → (g x).length ≤ hosts.length) :
    collect f xs = some (xs.flatMap g) ↔ ∀ x ∈ xs, f x = some (g x) := by
  induction xs with
  | nil => exact iff_of_true rfl (by simp)
  | cons x xs ih =>
    have hle' : ∀ y ∈ xs, ∀ hosts, f y = some hosts → (g y).length ≤ hosts.length :=
      fun y hy => hle y (List.mem_cons_of_mem _ hy)
    rw [List.forall_mem_cons, ← ih hle', collect, List.flatMap_cons]
    constructor
    · intro h
      obtain ⟨hosts, hx, h⟩ := Option.bind_eq_some_iff.mp h
      obtain ⟨rest, hxs, happ⟩ := Option.map_eq_some_iff.mp h
      have hhead := hle x List.mem_cons_self hosts hx
      have htail := length_le_of_collect hle' hxs
      have hlength := congrArg List.length happ
      rw [List.length_append, List.length_append] at hlength
      obtain ⟨rfl, rfl⟩ := List.append_inj happ (by omega)
      exact ⟨hx, hxs⟩
    · rintro ⟨hx, hxs⟩
      rw [hx, hxs]
      rfl

end

namespace Range

/-- A range that has a number stays below the largest `int`, and its width is one. -/
def Fits (r : Range) : Prop :=
  r.first.value ≤ r.last.value → (r.last.value : Int) < intMax ∧ (r.width : Int) ≤ intMax

theorem length_printed {r : Range} {pre suf : Text} {hosts : List Text}
    (h : r.printed pre suf = some hosts) :
    (r.numbers.map fun number => pre ++ number ++ suf).length ≤ hosts.length := by
  unfold printed at h
  split at h
  · cases h
  · obtain rfl := Option.some.inj h
    simp [numbers]

theorem length_padded (numWidth : Int) (n : Nat) :
    (padded numWidth n).length = max numWidth.toNat (Nat.toDigits 10 n).length := by
  rw [padded, List.length_append, List.length_replicate]
  show numWidth.toNat - (Nat.toDigits 10 n).length + (Nat.toDigits 10 n).length = _
  omega

theorem toInt_of_le {w : Nat} (h : (w : Int) ≤ intMax) : toInt w = w := by
  have hbound : (w : Int) ≤ 2147483647 := h
  unfold toInt
  rw [Nat.mod_eq_of_lt (by omega)]
  omega

theorem toInt_le (w : Nat) : toInt w ≤ intMax := by
  show toInt w ≤ 2147483647
  have hmod : (w + 2147483648) % 4294967296 < 4294967296 := Nat.mod_lt _ (by decide)
  unfold toInt
  omega

/-- A number that is an `int` is padded to a width exactly if the width is one. -/
theorem padded_eq_iff (r : Range) {n : Nat} (hn : (n : Int) ≤ intMax) :
    padded (toInt r.width) n = r.number n ↔ (r.width : Int) ≤ intMax := by
  constructor
  · intro h
    have hdigits : (Nat.toDigits 10 n).length ≤ 10 := by
      refine (Nat.length_toDigits_le_iff (by decide) (by decide)).mpr ?_
      have hbound : (n : Int) ≤ 2147483647 := hn
      omega
    have hlength := congrArg List.length h
    rw [length_padded, number, List.length_append, List.length_replicate] at hlength
    have hle : toInt r.width ≤ 2147483647 := toInt_le r.width
    show (r.width : Int) ≤ 2147483647
    omega
  · intro h
    rw [toInt_of_le h]
    rfl

theorem printed_eq_iff (r : Range) (pre suf : Text) :
    r.printed pre suf = some (r.numbers.map fun number => pre ++ number ++ suf) ↔ r.Fits := by
  have hlast : (r.last.value : Int) ≤ intMax := r.last.small
  unfold printed Fits
  by_cases hle : r.first.value ≤ r.last.value
  · by_cases hmax : (r.last.value : Int) = intMax
    · rw [if_pos ⟨hle, hmax⟩]
      exact iff_of_false (by simp) fun h => absurd (h hle).1 (by omega)
    · rw [if_neg fun h => hmax h.2, Option.some_inj, numbers, List.map_map, List.map_inj_left]
      have hsame : (∀ n ∈ List.range' r.first.value (r.last.value + 1 - r.first.value),
          pre ++ padded (toInt r.width) n ++ suf = ((fun number => pre ++ number ++ suf) ∘ r.number) n) ↔
            (r.width : Int) ≤ intMax := by
        constructor
        · intro h
          have hfirst := h r.first.value (List.mem_range'_1.mpr ⟨Nat.le_refl _, by omega⟩)
          exact (r.padded_eq_iff r.first.small).mp
            (List.append_cancel_left (List.append_cancel_right hfirst))
        · intro h n hn
          have hbound := (List.mem_range'_1.mp hn).2
          have hn : (n : Int) ≤ intMax := by omega
          rw [(r.padded_eq_iff hn).mpr h]
          rfl
      rw [hsame]
      exact ⟨fun h _ => ⟨by omega, h⟩, fun h => (h hle).2⟩
  · rw [if_neg fun h => hle h.1, numbers, Nat.sub_eq_zero_of_le (by omega)]
    exact iff_of_true rfl fun h => absurd h hle

end Range

namespace Item

/-- The item is not empty, and its ranges fit. -/
def Fits (item : Item) : Prop :=
  item.text ≠ [] ∧ ∀ r ∈ item.ranges, r.Fits

theorem length_printed {item : Item} {hosts : List Text} (h : item.printed = some hosts) :
    item.names.length ≤ hosts.length := by
  cases item with
  | name w =>
    obtain rfl := Option.some.inj h
    rw [names]
    split
    · exact Nat.zero_le _
    · exact Nat.le_refl _
  | group pre ranges suf => exact length_le_of_collect (fun r _ _ => r.length_printed) h

theorem printed_eq_iff (item : Item) : item.printed = some item.names ↔ item.Fits := by
  cases item with
  | name w =>
    rw [Item.printed, names, Fits, text]
    by_cases hempty : w.text = []
    · rw [if_pos hempty, hempty]
      exact iff_of_false (by simp) fun h => h.1 rfl
    · rw [if_neg hempty]
      exact iff_of_true rfl ⟨hempty, by simp [ranges]⟩
  | group pre rs suf =>
    have htext : (group pre rs suf).text ≠ [] := by simp [text]
    unfold Fits
    rw [and_iff_right htext]
    refine (collect_eq_iff fun r _ _ => r.length_printed).trans ?_
    exact forall₂_congr fun r _ => r.printed_eq_iff pre.text suf.text

end Item

/-- The items of an empty string stand for nothing. -/
theorem names_of_itemsText_nil (h : itemsText items = []) :
    items.flatMap Item.names = [] := by
  cases items with
  | nil => rfl
  | cons item items =>
    cases items with
    | nil =>
      have htext : item.text = [] := by simpa [itemsText] using h
      cases item with
      | name w =>
        rw [Item.text] at htext
        simp [Item.names, htext]
      | group pre ranges suf => exact absurd htext (by simp [Item.text])
    | cons item' items =>
      rw [itemsText, List.map_cons, List.map_cons, List.intercalate_cons_cons] at h
      simp at h

theorem printed_eq_iff (items : List Item) :
    printed items = some (items.flatMap Item.names) ↔ itemsText items = [] ∨ ∀ item ∈ items, item.Fits := by
  unfold printed
  by_cases hempty : itemsText items = []
  · rw [if_pos hempty, names_of_itemsText_nil hempty]
    exact iff_of_true rfl (Or.inl hempty)
  · rw [if_neg hempty, or_iff_right hempty]
    refine (collect_eq_iff fun item _ _ => item.length_printed).trans ?_
    exact forall₂_congr fun item _ => item.printed_eq_iff

/-- The parser ends, and has appended the names of the items in order. -/
def Expands (str : Text) (items : List Item) (hosts : List Text) : Prop :=
  ∃ enough, ∀ fuel ≥ enough,
    parseHostNameString fuel str hosts = some (hosts ++ items.flatMap Item.names)

theorem expands_iff_printed {str : Text} (h : Written str items)
    (hosts : List Text) : Expands str items hosts ↔ printed items = some (items.flatMap Item.names) := by
  unfold Expands
  rw [(parseHostNameString_text h hosts).iff_eq]
  constructor
  · intro heq
    obtain ⟨names, hnames, happ⟩ := Option.map_eq_some_iff.mp heq
    rw [hnames, List.append_cancel_left happ]
  · intro heq
    rw [heq, Option.map_some]

/-- **A string of the grammar comes to the names of its items exactly if it is empty, or has no
empty item, no range up to the largest `int`, and no number with more digits than that.** -/
theorem expands_iff (str : Text) (items : List Item) (hosts : List Text) (h : Written str items) :
    Expands str items hosts ↔ itemsText items = [] ∨ ∀ item ∈ items, item.Fits :=
  (expands_iff_printed h hosts).trans (printed_eq_iff items)

/-! ### Inputs -/

def Num.ofText (text : Text) (hdigits : text.all Char.isDigit = true) (hne : text ≠ [])
    (hsmall : (Nat.ofDigitChars 10 text 0 : Int) ≤ intMax) : Num :=
  ⟨text, List.all_eq_true.mp hdigits, hne, hsmall⟩

def Word.ofText (text : Text) (hplain : text.all (fun c => !special.contains c) = true) : Word where
  text := text
  plain c hc hmem := by
    have hplain := List.all_eq_true.mp hplain c hc
    rw [List.contains_iff_mem.mpr hmem] at hplain
    cases hplain

def host : Word := .ofText ['h'] rfl

def empty : Word := .ofText [] rfl

/-- `h[08-10,3];h`. -/
def twoHosts : List Item :=
  [.group host
    [.span (.ofText ['0', '8'] rfl (by decide) (by decide)) (.ofText ['1', '0'] rfl (by decide) (by decide)),
      .single (.ofText ['3'] rfl (by decide) (by decide))] empty,
    .name host]

theorem expands_iff_twoHosts :
    Expands "h[08-10,3]; h".toList twoHosts [] ↔
      itemsText twoHosts = [] ∨ ∀ item ∈ twoHosts, item.Fits :=
  expands_iff "h[08-10,3]; h".toList twoHosts [] rfl

/-- `h;`: the item behind the semicolon is empty. -/
def trailing : List Item := [.name host, .name empty]

/-- `h[2147483647]`. -/
def largest : List Item :=
  [.group host
    [.single (.ofText ['2', '1', '4', '7', '4', '8', '3', '6', '4', '7'] rfl (by decide) (by decide))] empty]

/-- Behind a trailing semicolon an empty name is appended, and the loop up to the largest `int`
does not end. -/
theorem trailing_and_largest :
    (Written "h;".toList trailing ∧ ¬Expands "h;".toList trailing []) ∧
      Written "h[2147483647]".toList largest ∧ ¬Expands "h[2147483647]".toList largest [] := by
  have htrailing : Written "h;".toList trailing := rfl
  have hlargest : Written "h[2147483647]".toList largest := rfl
  refine ⟨⟨htrailing, fun h => ?_⟩, hlargest, fun h => ?_⟩
  · have heq : printed trailing = some [['h']] := (expands_iff_printed htrailing []).mp h
    have hprinted : printed trailing = some [['h'], []] := rfl
    rw [hprinted] at heq
    exact absurd heq (by decide)
  · have heq := (expands_iff_printed hlargest []).mp h
    have hprinted : printed largest = none := rfl
    rw [hprinted] at heq
    cases heq

end ConfigParse
end IowarpCore
