/-
Host names with ranges of numbers.

Follows `ConfigParse::ParseHostNameString` of `config_parse.h`.  A `std::stringstream` that is
read with `std::getline` while it is good gives the pieces between the delimiters, an empty
last one among them.  `operator>>` reads the digits at the front as an `int` and stops at its
ends if there are more.

A loop over `int` that passes the largest one has no defined behaviour; here the counter
wraps around.
-/
import Mathlib.Data.List.Basic

namespace IowarpCore
namespace ConfigParse

/-- The characters of a `std::string`. -/
abbrev Text := List Char

/-- The largest and the least `int`. -/
def intMax : Int := 2147483647

def intMin : Int := -2147483648

/-- A `size_t` as an `int`. -/
def toInt (n : Nat) : Int :=
  ((n + 2147483648) % 4294967296 : Nat) - 2147483648

/-- `++i`. -/
def incr (i : Int) : Int :=
  if i = intMax then intMin else i + 1

def rmChar (str : Text) (ch : Char) : Text :=
  str.filter (· ≠ ch)

/-- `std::string::find_first_of` of one character. -/
def findFirstOf (str : Text) (ch : Char) : Option Nat :=
  str.idxOf? ch

/-- `std::string::find_last_of` of one character. -/
def findLastOf (str : Text) (ch : Char) : Option Nat :=
  (str.reverse.idxOf? ch).map fun i => str.length - 1 - i

/-- What `std::getline` reads while the stream is good. -/
def getlines (str : Text) (delim : Char) : List Text :=
  str.splitOn delim

/-- `std::isspace`. -/
def isSpace (c : Char) : Bool :=
  [' ', '\t', '\n', '\x0b', '\x0c', '\r'].contains c

/-- `std::stringstream(str) >> i`, for an `int`. -/
def readInt (str : Text) : Int :=
  let value (str : Text) : Int := Nat.ofDigitChars 10 (str.takeWhile Char.isDigit) 0
  match str.dropWhile isSpace with
  | '-' :: digits => max intMin (-value digits)
  | '+' :: digits => min intMax (value digits)
  | digits => min intMax (value digits)

/-- An `int` in decimal. -/
def decimal : Int → Text
  | .ofNat n => Nat.toDigits 10 n
  | .negSucc n => '-' :: Nat.toDigits 10 (n + 1)

/-- `std::setw(num_width) << std::setfill('0') << i`. -/
def padded (numWidth i : Int) : Text :=
  List.replicate (numWidth.toNat - (decimal i).length) '0' ++ decimal i

/-! ### Ranges -/

/-- The `std::tuple` of a range. -/
structure RangeTuple where
  min : Int
  max : Int
  numWidth : Int
deriving DecidableEq, Repr

/-- One piece of the range list. -/
def parseRange (rangeStr : Text) : Option RangeTuple :=
  let rangeStr := rmChar rangeStr ' '
  match findFirstOf rangeStr '-' with
  | some dash =>
    let minStr := rangeStr.take dash
    let maxStr := rangeStr.drop (dash + 1)
    let numWidth := if minStr.length = maxStr.length then toInt minStr.length else 0
    some ⟨readInt minStr, readInt maxStr, numWidth⟩
  | none =>
    if rangeStr ≠ [] then
      some ⟨readInt rangeStr, readInt rangeStr, toInt rangeStr.length⟩
    else none

def parseRanges (rangesStr : Text) : List RangeTuple :=
  (getlines rangesStr ',').filterMap parseRange

/-! ### Names -/

/-- The loop over a range from `i` on: `none` while it goes on. -/
def hostLoop (pre suf : Text) (range : RangeTuple) : Nat → Int → Option (List Text)
  | 0, _ => none
  | fuel + 1, i =>
    if i ≤ range.max then
      (hostLoop pre suf range fuel (incr i)).map fun hosts =>
        (pre ++ padded range.numWidth i ++ suf) :: hosts
    else some []

/-- A loop whose body may not end, and the names its turns append. -/
def collect {α : Type} (body : α → Option (List Text)) : List α → Option (List Text)
  | [] => some []
  | x :: xs => (body x).bind fun hosts => (collect body xs).map fun rest => hosts ++ rest

/-- The names of one host name with ranges. -/
def expandHost (fuel : Nat) (hostname : Text) : Option (List Text) :=
  match findFirstOf hostname '[', findLastOf hostname ']' with
  | some lbracket, some rbracket =>
    let pre := hostname.take lbracket
    -- a length below zero is a large `size_t`, and `substr` takes the rest
    let rest := hostname.drop (lbracket + 1)
    let rangesStr := if lbracket < rbracket then rest.take (rbracket - lbracket - 1) else rest
    let suf := hostname.drop (rbracket + 1)
    collect (fun range => hostLoop pre suf range fuel range.min) (parseRanges rangesStr)
  | _, _ => some [hostname]

/-- The string without whitespace. -/
def strip (hostnameSetStr : Text) : Text :=
  rmChar (rmChar (rmChar (rmChar hostnameSetStr ' ') '\n') '\r') '\t'

/-- `ParseHostNameString`, with so many turns for each range: `none` if that is not enough. -/
def parseHostNameString (fuel : Nat) (hostnameSetStr : Text) (list : List Text) :
    Option (List Text) :=
  let str := strip hostnameSetStr
  if str = [] then some list
  else (collect (expandHost fuel) (getlines str ';')).map fun hosts => list ++ hosts

end ConfigParse
end IowarpCore
