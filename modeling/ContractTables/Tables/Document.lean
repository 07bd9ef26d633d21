import ContractTables.Json.Write
import ContractTables.Tables

/-!
Tables as a JSON document. Members stand in the order in which the fields are listed
here; the other tags of a comment stand by ascending key.
-/
namespace ContractTables

namespace Json

def texts (items : List String) : Json := array (items.map string)

def nat (value : Nat) : Json := int value

def optional (value : Option Json) : Json := value.getD null

end Json

open Json

def LineSpan.document (span : LineSpan) : Json :=
  object [("start", nat span.first), ("end", nat span.last)]

def NatSpec.document (spec : NatSpec) : Json :=
  object
    [("title", string spec.title), ("notice", string spec.notice), ("dev", string spec.dev),
     ("returns", string spec.returns), ("params", texts spec.params),
     ("other", object (spec.other.entries.map fun (tag, text) => (tag, string text)))]

def ObjectRow.document (row : ObjectRow) : Json :=
  let d := row.definition
  object
    [("object_name", string d.name), ("kind", string d.kind.tag),
     ("contract", string d.contract), ("inheritance", texts d.bases),
     ("modifiers", texts d.modifiers), ("values", texts d.values),
     ("visibility", string d.visibility), ("line_span", d.span.document),
     ("description", string row.comment.description), ("full_comment", string row.comment.full),
     ("natspec", row.comment.natspec.document), ("coding_keywords", texts row.codes.keywords),
     ("coding_topics", texts row.codes.topics)]

def ParameterRow.document (row : ParameterRow) : Json :=
  let d := row.declaration
  object
    [("parameter_name", string d.name), ("object_name", string d.owner),
     ("contract", string d.contract), ("declared_type", string d.type),
     ("type_category", string d.category), ("initial_value", optional (d.initial.map string)),
     ("line_number", nat d.line), ("visibility", string d.visibility),
     ("description", string row.comment.description), ("full_comment", string row.comment.full),
     ("inline_comment", string row.comment.inline)]

def Diagnostic.document (diagnostic : Diagnostic) : Json :=
  object [("line", optional (diagnostic.line.map nat)), ("message", string diagnostic.message)]

def Tables.document (tables : Tables) : Json :=
  object
    [("objects", array (tables.objects.map ObjectRow.document)),
     ("parameters", array (tables.parameters.map ParameterRow.document)),
     ("diagnostics", array (tables.diagnostics.map Diagnostic.document))]

def Tables.toJsonText (tables : Tables) : String := tables.document.indentedText

end ContractTables
