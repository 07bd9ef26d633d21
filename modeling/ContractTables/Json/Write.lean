import ContractTables.Decimal.Shortest
import ContractTables.Json.Basic

/-!
JSON text of values. The compact form has no space at all; the indented form puts every
item and member on a line of its own, two spaces deeper than its parent, and leaves empty
arrays and objects closed. Strings escape quotes, backslashes and control characters, and
nothing else.
-/
namespace ContractTables.Json

/-- Binary64 numbers from `0.00001` up to sixteen places before the point have no exponent. -/
def floatLayout : Decimal.Layout := ⟨-5, 15⟩

def writeInt : Int → List Char
  | .ofNat value => Nat.toDigits 10 value
  | .negSucc value => '-' :: Nat.toDigits 10 (value + 1)

def escape (c : Char) : List Char :=
  if c = '"' then ['\\', '"']
  else if c = '\\' then ['\\', '\\']
  else if c = '\x08' then ['\\', 'b']
  else if c = '\t' then ['\\', 't']
  else if c = '\n' then ['\\', 'n']
  else if c = '\x0c' then ['\\', 'f']
  else if c = '\r' then ['\\', 'r']
  else if c.toNat < 0x20 then
    ['\\', 'u', '0', '0', Nat.digitChar (c.toNat / 16), Nat.digitChar (c.toNat % 16)]
  else [c]

def writeString (value : String) : List Char := '"' :: value.toList.flatMap escape ++ ['"']

def writeBool (value : Bool) : List Char := if value then "true".toList else "false".toList

mutual
def compact : Json → List Char
  | null => "null".toList
  | bool value => writeBool value
  | int value => writeInt value
  | float value => floatLayout.write value
  | string value => writeString value
  | array items => '[' :: compactItems items ++ [']']
  | object members => '{' :: compactMembers members ++ ['}']

def compactItems : List Json → List Char
  | [] => []
  | [item] => compact item
  | item :: rest => compact item ++ ',' :: compactItems rest

def compactMembers : List (String × Json) → List Char
  | [] => []
  | [(key, value)] => writeString key ++ ':' :: compact value
  | (key, value) :: rest => writeString key ++ ':' :: compact value ++ ',' :: compactMembers rest
end

def newLine (depth : Nat) : List Char := '\n' :: List.replicate (2 * depth) ' '

mutual
/-- The indented form of a value whose first line stands at a depth. -/
def indented (depth : Nat) : Json → List Char
  | null => "null".toList
  | bool value => writeBool value
  | int value => writeInt value
  | float value => floatLayout.write value
  | string value => writeString value
  | array [] => ['[', ']']
  | array items => '[' :: indentedItems (depth + 1) items ++ newLine depth ++ [']']
  | object [] => ['{', '}']
  | object members => '{' :: indentedMembers (depth + 1) members ++ newLine depth ++ ['}']

def indentedItems (depth : Nat) : List Json → List Char
  | [] => []
  | [item] => newLine depth ++ indented depth item
  | item :: rest => newLine depth ++ indented depth item ++ ',' :: indentedItems depth rest

def indentedMembers (depth : Nat) : List (String × Json) → List Char
  | [] => []
  | [(key, value)] => newLine depth ++ writeString key ++ ':' :: ' ' :: indented depth value
  | (key, value) :: rest =>
      newLine depth ++ writeString key ++ ':' :: ' ' :: indented depth value ++
        ',' :: indentedMembers depth rest
end

def compactText (value : Json) : String := String.ofList value.compact

def indentedText (value : Json) : String := String.ofList (value.indented 0)

end ContractTables.Json
