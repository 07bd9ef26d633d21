import ContractTables.Tables

/-!
Why a node yields no row, or a document no tables at all. A fault names the node by its
tag and its first line, as far as the node has one.
-/
namespace ContractTables

/-- What a node of a supported kind cannot do without. -/
inductive Required where
  | startLine
  | endLine
  | name
  | typeName
  deriving DecidableEq

def Required.path : Required → String
  | startLine => "loc.start.line"
  | endLine => "loc.end.line"
  | name => "name"
  | typeName => "typeName"

inductive Fault where
  | unsupported (tag : String) (line : Option Nat)
  | malformed (tag : String) (missing : Required) (line : Option Nat)
  | rootNotObject
  | noChildren
  deriving DecidableEq

namespace Fault

def line : Fault → Option Nat
  | unsupported _ line => line
  | malformed _ _ line => line
  | rootNotObject => none
  | noChildren => none

def lineText : Option Nat → String
  | some line => "Some(" ++ line.repr ++ ")"
  | none => "None"

def message : Fault → String
  | unsupported tag line =>
      "unsupported object type " ++ tag ++ " (line " ++ lineText line ++ ")"
  | malformed tag missing line =>
      "malformed " ++ tag ++ " node: missing `" ++ missing.path ++ "` (line " ++
        lineText line ++ ")"
  | rootNotObject => "invalid AST: root is not an object"
  | noChildren => "invalid AST: source unit has no `children` list"

def diagnostic (fault : Fault) : Diagnostic := ⟨fault.line, fault.message⟩

end Fault
end ContractTables
