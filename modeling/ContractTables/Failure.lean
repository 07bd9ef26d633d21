import ContractTables.Fault

/-!
Why a run ends. A failure has a message of its own and, below it, the cause: a fault of
a document, or what the file system, the JSON reader or the pattern reader reports.
-/
namespace ContractTables

inductive Cause where
  | system
  | json
  | pattern
  | fault (fault : Fault)
  /-- A document is no JSON, which is a message of its own above the reader's. -/
  | document

inductive Failure where
  | notJson
  | unreadableTree (path : String)
  | invalidTree (path : String)
  | unreadableTaxonomy (path : String)
  | invalidTaxonomy (path : String)
  | unreadableSource (path : String)
  | rejected (path : String) (fault : Fault)
  | noTree (path : String)
  | noDirectory (path : String)
  | unlisted (path : String)
  | invalidPattern (pattern : String)
  | filesBothWays
  | dirsBothWays
  | unmadeDirectory (path : String)
  | unwritten (path : String)

namespace Failure

def notJsonMessage : String := "Failed to parse AST document as JSON"

def message : Failure → String
  | notJson => notJsonMessage
  | unreadableTree path => "Failed to read AST file: " ++ path
  | invalidTree path => "Invalid AST in " ++ path
  | unreadableTaxonomy path => "Failed to read taxonomy file: " ++ path
  | invalidTaxonomy path => "Invalid taxonomy in " ++ path
  | unreadableSource path => "Failed to read source file: " ++ path
  | rejected path _ => "Failed to extract tables from " ++ path
  | noTree path => "No AST found for " ++ path
  | noDirectory path => "specify an existing directory: " ++ path
  | unlisted path =>
      "Walk error: IO error for operation on " ++ path ++ ": File name too long (os error 36)"
  | invalidPattern pattern => "Invalid file pattern: " ++ pattern
  | filesBothWays => "specify only files to exclude or to include, not both"
  | dirsBothWays => "specify only subdirectory names to exclude or to include, not both"
  | unmadeDirectory path => "Failed to create output directory: " ++ path
  | unwritten path => "Failed to write output file: " ++ path

def cause? : Failure → Option Cause
  | notJson => some .json
  | unreadableTree _ => some .system
  | invalidTree _ => some .document
  | unreadableTaxonomy _ => some .system
  | invalidTaxonomy _ => some .json
  | unreadableSource _ => some .system
  | rejected _ fault => some (.fault fault)
  | noTree _ => none
  | noDirectory _ => none
  | unlisted _ => none
  | invalidPattern _ => some .pattern
  | filesBothWays => none
  | dirsBothWays => none
  | unmadeDirectory _ => some .system
  | unwritten _ => some .system

end Failure

def Cause.message : Cause → String
  | system => "the file system refused"
  | json => "the text is not valid JSON of the expected form"
  | pattern => "the pattern is not well formed"
  | fault found => found.message
  | document => Failure.notJsonMessage

end ContractTables
