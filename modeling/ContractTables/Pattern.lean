import ContractTables.Text.DecimalDigit

/-!
Patterns for file names: single characters, `.` for any character but a line feed, `\d`
for a decimal digit, the repetitions `?`, `*` and `+`, and the anchors `^` and `$`. A
pattern is found anywhere in a name unless it is anchored.
-/
namespace ContractTables

inductive Letter where
  | char (value : Char)
  | digit
  | any

inductive Times where
  | once
  | optional
  | many
  | repeated

inductive PatternItem where
  | start
  | stop
  | letters (letter : Letter) (times : Times)

abbrev Pattern := List PatternItem

def Letter.accepts : Letter → Char → Bool
  | char value, c => value = c
  | digit, c => Text.isDecimalDigit c
  | any, c => c ≠ '\n'

namespace Pattern

inductive Token where
  | item (item : PatternItem)
  | times (times : Times)

/-- Brackets, braces, parentheses and bars have no meaning in these patterns. -/
def token? : Char → Option Token
  | '^' => some (.item .start)
  | '$' => some (.item .stop)
  | '.' => some (.item (.letters .any .once))
  | '?' => some (.times .optional)
  | '*' => some (.times .many)
  | '+' => some (.times .repeated)
  | c => if "()[\x7b|".toList.contains c then none else some (.item (.letters (.char c) .once))

def escaped? (c : Char) : Option Token :=
  if c = 'd' then some (.item (.letters .digit .once))
  else if c.toNat < 0x80 && !c.isAlphanum then some (.item (.letters (.char c) .once))
  else none

def tokens? : List Char → Option (List Token)
  | [] => some []
  | ['\\'] => none
  | '\\' :: c :: rest => do some ((← escaped? c) :: (← tokens? rest))
  | c :: rest => do some ((← token? c) :: (← tokens? rest))

/-- A repetition applies to the letter right before it. -/
def items? : List Token → Option Pattern
  | [] => some []
  | .item (.letters letter _) :: .times times :: rest =>
      (items? rest).map (.letters letter times :: ·)
  | .item item :: rest => (items? rest).map (item :: ·)
  | .times _ :: _ => none

def parse? (text : String) : Option Pattern := (tokens? text.toList).bind items?

/-- Any number of letters, then what a continuation accepts. -/
def star (letter : Letter) (next : Bool → List Char → Bool) : Bool → List Char → Bool
  | atStart, [] => next atStart []
  | atStart, c :: rest =>
      next atStart (c :: rest) || (letter.accepts c && star letter next false rest)

def one (letter : Letter) (next : Bool → List Char → Bool) : List Char → Bool
  | [] => false
  | c :: rest => letter.accepts c && next false rest

/-- Whether the pattern accepts some beginning of a text. -/
def accepts : Pattern → Bool → List Char → Bool
  | [], _, _ => true
  | .start :: items, atStart, text => atStart && accepts items atStart text
  | .stop :: items, atStart, text => text.isEmpty && accepts items atStart text
  | .letters letter .once :: items, _, text => one letter (accepts items) text
  | .letters letter .optional :: items, atStart, text =>
      accepts items atStart text || one letter (accepts items) text
  | .letters letter .many :: items, atStart, text => star letter (accepts items) atStart text
  | .letters letter .repeated :: items, _, text => one letter (star letter (accepts items)) text

def foundAfter (pattern : Pattern) (atStart : Bool) : List Char → Bool
  | [] => pattern.accepts atStart []
  | c :: rest => pattern.accepts atStart (c :: rest) || foundAfter pattern false rest

def found (pattern : Pattern) (name : String) : Bool := foundAfter pattern true name.toList

/-- The names that the pattern written by a text is found in. -/
def read? (text : String) : Option (String → Bool) := (parse? text).map found

end Pattern

/-- A language of patterns: which texts are well formed, and what they are found in. -/
abbrev PatternReader := String → Option (String → Bool)

example : ((Pattern.parse? "^I?ERC\\d+\\.sol$").map fun p =>
    ["ERC20.sol", "IERC721.sol", "ERC.sol", "ERC20.sol.sol", "xERC20.sol"].map p.found) =
      some [true, true, false, false, false] := by decide +kernel

end ContractTables
