import ContractTables.Node

/-!
Small syntax trees built from their parts: contracts of functions, every type a `uint256`.
-/
namespace ContractTables.Document

def lineAt (line : Nat) : Json := .object [("line", .int (.ofNat line))]

def location (first last : Nat) : String × Json :=
  ("loc", .object [("start", lineAt first), ("end", lineAt last)])

def word (name : String) (line : Nat) : Node :=
  .object
    [("type", .string "VariableDeclaration"), ("name", .string name),
     ("typeName", .object [("type", .string "ElementaryTypeName"), ("name", .string "uint256")]),
     location line line]

def function (name : String) (line : Nat) (parameters : List String) : Node :=
  .object
    [("type", .string "FunctionDefinition"), ("name", .string name),
     ("parameters", .array (parameters.map (word · line))), location line line]

def contract (name : String) (first last : Nat) (members : List Node) : Node :=
  .object
    [("type", .string "ContractDefinition"), ("name", .string name),
     ("subNodes", .array members), location first last]

def ofContracts (contracts : List Node) : Node := .object [("children", .array contracts)]

end ContractTables.Document
