import ContractTables.Coding.Taxonomy
import ContractTables.Json.Load

/-!
Taxonomies written as JSON. A record is an object with each of its fields once, other
members being passed over unread, or an array of its fields in order and nothing more.
-/
namespace ContractTables

namespace Json.Written

def text? : Written → Option String
  | string pieces => decodeText? pieces
  | _ => none

def texts? : Written → Option (List String)
  | array items => items.mapM text?
  | _ => none

/-- The values of the named fields, in this order. -/
def record? (fields : List String) : Written → Option (List Written)
  | array items => if items.length = fields.length then some items else none
  | object members => do
      let named ← members.mapM fun (key, value) => (decodeText? key).map (·, value)
      fields.mapM fun field =>
        match named.filter (·.1 = field) with
        | [(_, value)] => some value
        | _ => none
  | _ => none

end Json.Written

open Json

def Category.ofWritten? (document : Written) : Option Category := do
  match ← document.record? ["name", "keywords", "topics"] with
  | [name, keywords, topics] => some ⟨← name.text?, ← keywords.texts?, ← topics.texts?⟩
  | _ => none

def Taxonomy.ofWritten? (document : Written) : Option Taxonomy := do
  match ← document.record? ["categories"] with
  | [.array categories] => some ⟨← categories.mapM Category.ofWritten?⟩
  | _ => none

/-- A text nests no deeper than it is long, so members that are passed over may nest freely. -/
def Taxonomy.load? (text : List Char) : Option Taxonomy := do
  Taxonomy.ofWritten? (← Written.read? text.length text)

end ContractTables
