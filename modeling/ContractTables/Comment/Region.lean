import ContractTables.Text.Blank
import ContractTables.Text.Line
import ContractTables.Text.Search

/-!
The comment at the end of a region of source lines: either the last block comment, if
its closing mark ends the region, or else the run of line comments at the end. Lines are
trimmed, lose the marks of their comment form, and are dropped if nothing is left.
-/
namespace ContractTables.Comment

open Text

/-- The source lines after line `first` up to line `last`, as far as the source has them. -/
def window (lines : List Line) (first last : Nat) : List Line := (lines.take last).drop first

def nonblank (lines : List Line) : List Line := (lines.map trim).filter (!·.isEmpty)

/-- The text inside a block comment that closes the text. It opens at the last opening
mark, so earlier blocks do not count. -/
def blockInterior? (text : List Char) : Option (List Char) := do
  let body ← dropEndMark? "*/".toList text
  let (_, interior) ← cutLast? "/**".toList body
  if interior.isEmpty then none else some interior

def dropBullet (line : Line) : Line := trim ((trimStart line).dropWhile (· = '*'))

def dropSlashes (line : Line) : Line := trim (line.dropWhile (· = '/'))

def isLineComment (line : Line) : Bool := startsWith "//".toList line

def clean (lines : List Line) : List Line :=
  let kept := nonblank lines
  let found := match blockInterior? (unlines kept) with
    | some interior => (interior.splitOn '\n').map dropBullet
    | none => (kept.reverse.takeWhile isLineComment).reverse.map dropSlashes
  found.filter (!·.isEmpty)

def besideCode (line : Line) : Line :=
  match cutFirst? "//".toList line with
  | some (_, after) => dropSlashes after
  | none => []

/-- The comment above a declaration and the one beside it; its line ends the region. -/
def cleanDeclaration (lines : List Line) : List Line × Line :=
  match lines.getLast? with
  | none => ([], [])
  | some last => (clean lines.dropLast, besideCode last)

theorem cleanDeclaration_concat (above : List Line) (line : Line) :
    cleanDeclaration (above ++ [line]) = (clean above, besideCode line) := by
  rw [cleanDeclaration, List.getLast?_concat]
  simp only [List.dropLast_concat]

end ContractTables.Comment
