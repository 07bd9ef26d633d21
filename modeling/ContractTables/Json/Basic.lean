import ContractTables.Decimal.Binary64

/-!
JSON values. Whole numbers and binary64 numbers are kept apart, because only the former
can be line numbers. The members of an object stand in the order in which they are
written; values that were read have them by ascending key.
-/
namespace ContractTables

inductive Json where
  | null
  | bool (value : Bool)
  | int (value : Int)
  | float (value : Decimal.Binary64)
  | string (value : String)
  | array (items : List Json)
  | object (members : List (String × Json))

namespace Json

def isObject : Json → Bool
  | object _ => true
  | _ => false

def text? : Json → Option String
  | string value => some value
  | _ => none

/-- The member of an object under a key; a null member counts here. -/
def member? (key : String) : Json → Option Json
  | object members => members.lookup key
  | _ => none

def maxWord : Nat := 0xFFFFFFFFFFFFFFFF

def word? : Json → Option Nat
  | int (.ofNat value) => if value ≤ maxWord then some value else none
  | _ => none

end Json
end ContractTables
