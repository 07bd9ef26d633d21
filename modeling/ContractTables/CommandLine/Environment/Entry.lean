import ContractTables.Text.Blank

/-!
Entries of a file of variables, such as `NAME=value`. An entry is a line, or several where
a quote, a backslash or a single white space character is still pending at the end of one.
A value may be quoted, escape characters with a backslash, and name variables set before.
-/
namespace ContractTables.CommandLine.Entry

inductive Pending where
  | nothing
  | blank
  | escape
  | quote
  | quoteEscape
  | rawQuote
  | rawQuoteEscape
  deriving DecidableEq

namespace Pending

def opened (c : Char) : Pending :=
  if c = '\\' then escape
  else if c = '"' then quote
  else if c = '\'' then rawQuote
  else nothing

/-- What is pending after a character, unless it starts a comment. -/
def next? : Pending → Char → Option Pending
  | nothing, c =>
      some (if Text.isBlank c && c ≠ '\n' && c ≠ '\r' then blank else opened c)
  | blank, c => if c = '#' then none else some (opened c)
  | escape, _ => some nothing
  | quote, c => some (if c = '\\' then quoteEscape else if c = '"' then nothing else quote)
  | quoteEscape, _ => some quote
  | rawQuote, c => some (if c = '\\' then rawQuoteEscape else if c = '\'' then nothing else rawQuote)
  | rawQuoteEscape, _ => some rawQuote

end Pending

/-- A line up to a comment, and what is pending after it; a comment ends the entry. -/
def scan : Pending → List Char → List Char × Pending
  | pending, [] => ([], pending)
  | pending, c :: rest =>
      match pending.next? c with
      | none => ([], .nothing)
      | some pending =>
          let (text, after) := scan pending rest
          (c :: text, after)

def isComment (text : List Char) : Bool := (Text.trimStart text).head? = some '#'

/-- Joins lines, each with its line feed, into entries. An entry that is still pending
after the last line is dropped, and so are comments. -/
def join : Pending → List Char → List (List Char) → List (List Char)
  | _, _, [] => []
  | pending, before, line :: rest =>
      if isComment (before ++ line) then join .nothing [] rest
      else
        match scan pending line with
        | (text, .nothing) => (before ++ text) :: join .nothing [] rest
        | (text, pending) => join pending (before ++ text) rest

/-- Where the reading of a value stands; a name of a variable is met after a dollar sign. -/
inductive Place where
  | text (quoted : Bool)
  | escape (quoted : Bool)
  | rawQuote
  | name (quoted : Bool) (read : List Char)
  | bracedName (quoted : Bool) (read : List Char)
  | ended

def escaped? (c : Char) : Option Char :=
  if c = 'n' then some '\n'
  else if ['\\', '\'', '"', '$', ' '].contains c then some c
  else none

def isGap (c : Char) : Bool := c = ' ' || c = '\t'

/-- The rest of a value from a place in it on. Outside quotes a value ends at a gap, which
only a comment may follow. A name without braces ends at the first character that is no
letter or digit, and that character stands for itself. -/
def expand? (valueOf : List Char → List Char) : Place → List Char → Option (List Char)
  | .text quoted, [] => if quoted then none else some []
  | .escape quoted, [] => if quoted then none else some []
  | .rawQuote, [] => none
  | .name quoted read, [] => if quoted then none else some (valueOf read)
  | .bracedName _ _, [] => none
  | .ended, [] => some []
  | .text quoted, c :: rest =>
      if c = '$' then expand? valueOf (.name quoted []) rest
      else if c = '\\' then expand? valueOf (.escape quoted) rest
      else if c = '"' then expand? valueOf (.text !quoted) rest
      else if !quoted && c = '\'' then expand? valueOf .rawQuote rest
      else if !quoted && isGap c then expand? valueOf .ended rest
      else (expand? valueOf (.text quoted) rest).map (c :: ·)
  | .escape quoted, c :: rest => do
      let meant ← escaped? c
      (expand? valueOf (.text quoted) rest).map (meant :: ·)
  | .rawQuote, c :: rest =>
      if c = '\'' then expand? valueOf (.text false) rest
      else (expand? valueOf .rawQuote rest).map (c :: ·)
  | .name quoted read, c :: rest =>
      if c.isAlphanum then expand? valueOf (.name quoted (read ++ [c])) rest
      else if c = '{' && read.isEmpty then expand? valueOf (.bracedName quoted []) rest
      else if c = '$' then (expand? valueOf (.name quoted []) rest).map (valueOf read ++ ·)
      else (expand? valueOf (.text quoted) rest).map (valueOf read ++ c :: ·)
  | .bracedName quoted read, c :: rest =>
      if c = '}' then (expand? valueOf (.text quoted) rest).map (valueOf read ++ ·)
      else expand? valueOf (.bracedName quoted (read ++ [c])) rest
  | .ended, c :: rest =>
      if isGap c then expand? valueOf .ended rest
      else if c = '#' then some []
      else none

def isNameChar (c : Char) : Bool := c.isAlphanum || c = '_' || c = '.'

/-- Takes a name off the front of a text, and white space after it. -/
def takeName? (text : List Char) : Option (List Char × List Char) :=
  if text.head?.any fun c => c.isAlpha || c = '_' then
    some (text.takeWhile isNameChar, Text.trimStart (text.dropWhile isNameChar))
  else none

/-- Takes a name and an equals sign off the front; the word `export` may stand before. -/
def takeAssigned? (text : List Char) : Option (List Char × List Char) := do
  match ← takeName? text with
  | (name, '=' :: rest) => some (name, rest)
  | (name, rest) =>
      if name = "export".toList then
        match ← takeName? rest with
        | (name, '=' :: rest) => some (name, rest)
        | _ => none
      else none

/-- The variable that an entry sets and its value, unless the entry is malformed. -/
def read? (valueOf : List Char → List Char) (entry : List Char) :
    Option (List Char × List Char) := do
  let (name, rest) ← takeAssigned? (Text.trim entry)
  let rest := Text.trimStart rest
  if isComment rest then some (name, [])
  else (expand? valueOf (.text false) rest).map (name, ·)

end ContractTables.CommandLine.Entry
