import ContractTables.Text.Case.Mapping
import ContractTables.Text.Case.Properties

/-!
Lower-casing of whole texts. Two letters need more than the simple mapping: `İ` becomes
two characters, and a capital sigma at the end of a word becomes a final sigma. A sigma
is at the end of a word if the nearest character before it that is not case ignorable
is cased and the nearest one after it is not.
-/
namespace ContractTables.Text

def touchesCased (text : List Char) : Bool :=
  match text.dropWhile isCaseIgnorable with
  | c :: _ => isCased c
  | [] => false

/-- The image of one character between the text before it, nearest first, and after. -/
def lowerBetween (before : List Char) (c : Char) (after : List Char) : List Char :=
  if c = 'Σ' then
    if touchesCased before && !touchesCased after then ['ς'] else ['σ']
  else if c = 'İ' then ['i', Char.ofNat 0x307]
  else [lowerSimple c]

def lowerAfter (before : List Char) : List Char → List Char
  | [] => []
  | c :: rest => lowerBetween before c rest ++ lowerAfter (c :: before) rest

def lower (text : List Char) : List Char := lowerAfter [] text

example : lower "ΑΣ ΑΣΑ ẞİ".toList = "ας ασα ßi\u0307".toList := by decide +kernel

end ContractTables.Text
