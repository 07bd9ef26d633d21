/-!
White space and trimming. Blank characters are the 25 of Unicode's `White_Space`
property, so line breaks, tabs and no-break spaces all count; trimming removes them
at the ends and nowhere else.
-/
namespace ContractTables.Text

def blanks : List (Nat × Nat) :=
  [(0x9, 0xD), (0x20, 0x20), (0x85, 0x85), (0xA0, 0xA0), (0x1680, 0x1680),
   (0x2000, 0x200A), (0x2028, 0x2029), (0x202F, 0x202F), (0x205F, 0x205F),
   (0x3000, 0x3000)]

/-- Whether a code point lies in one of the closed ranges. -/
def inRanges (ranges : List (Nat × Nat)) (c : Char) : Bool :=
  ranges.any fun (first, last) => first ≤ c.toNat && c.toNat ≤ last

def isBlank (c : Char) : Bool := inRanges blanks c

def trimStart (text : List Char) : List Char := text.dropWhile isBlank

def trimEnd (text : List Char) : List Char := (text.reverse.dropWhile isBlank).reverse

def trim (text : List Char) : List Char := trimEnd (trimStart text)

/-- Removes the characters of a kind at both ends. -/
def stripBoth (p : Char → Bool) (text : List Char) : List Char :=
  ((text.dropWhile p).reverse.dropWhile p).reverse

example : trim "\t a b \r\n".toList = "a b".toList := by decide
example : trim [Char.ofNat 0x200B] = [Char.ofNat 0x200B] := by decide

end ContractTables.Text
