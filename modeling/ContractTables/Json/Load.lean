import ContractTables.Dictionary
import ContractTables.Json.Written

/-!
The values of JSON documents. Sixteen-bit escapes must be characters, or two halves of
one in a row; numbers must be finite. Of several members with one key the last counts,
and objects are listed by ascending key.
-/
namespace ContractTables.Json

def isHighHalf (unit : Nat) : Bool := 0xD800 ≤ unit && unit ≤ 0xDBFF

def isLowHalf (unit : Nat) : Bool := 0xDC00 ≤ unit && unit ≤ 0xDFFF

def decode? : List Piece → Option (List Char)
  | [] => some []
  | .char c :: rest => (decode? rest).map (c :: ·)
  | .unit high :: .unit low :: rest =>
      if isHighHalf high then
        if isLowHalf low then
          (decode? rest).map (Char.ofNat (0x10000 + (high - 0xD800) * 0x400 + (low - 0xDC00)) :: ·)
        else none
      else if isLowHalf high then none
      else (decode? (.unit low :: rest)).map (Char.ofNat high :: ·)
  | .unit unit :: rest =>
      if isHighHalf unit || isLowHalf unit then none
      else (decode? rest).map (Char.ofNat unit :: ·)

def decodeText? (pieces : List Piece) : Option String := (decode? pieces).map String.ofList

namespace Written

mutual
def value? : Written → Option Json
  | null => some Json.null
  | bool value => some (Json.bool value)
  | number numeral => numeral.value?
  | string pieces => (decodeText? pieces).map Json.string
  | array items => (values? items).map Json.array
  | object members => (members? members []).map Json.object

def values? : List Written → Option (List Json)
  | [] => some []
  | item :: rest => do some ((← value? item) :: (← values? rest))

/-- Adds the members in written order to those found so far. -/
def members? : List (List Piece × Written) → List (String × Json) → Option (List (String × Json))
  | [], found => some found
  | (key, value) :: rest, found => do
      members? rest (insertEntry (← decodeText? key) (← value? value) found)
end

end Written

def maxDepth : Nat := 127

/-- The value of a document, or none if the text is not a document. -/
def load? (text : List Char) : Option Json := do
  (← Written.read? maxDepth text).value?

end ContractTables.Json
