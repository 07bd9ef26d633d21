import ContractTables.Csv
import ContractTables.Tables

/-!
The tables of a project as comma-separated records, one document for the objects and one
for the parameters. A record names the project and the file before the columns of its row.
-/
namespace ContractTables

structure LabelledTables where
  label : String
  tables : Tables

def commaList (items : List String) : String := ", ".intercalate items

def objectTitles : List String :=
  ["project", "file", "object_name", "contract", "type", "inheritance", "modifiers", "values",
   "visibility", "description", "full_comment", "title", "notice", "dev", "param", "return",
   "coding_keyword_search", "coding_topic_search"]

def parameterTitles : List String :=
  ["project", "file", "parameter_name", "object_name", "contract", "type", "type_category",
   "initial_value", "visibility", "description", "full_comment", "inline_comment"]

def objectFields (project file : String) (row : ObjectRow) : List String :=
  [project,
   file,
   row.definition.name,
   row.definition.contract,
   row.definition.kind.tag,
   commaList row.definition.bases,
   commaList row.definition.modifiers,
   commaList row.definition.values,
   row.definition.visibility,
   row.comment.description,
   row.comment.full,
   row.comment.natspec.title,
   row.comment.natspec.notice,
   row.comment.natspec.dev,
   commaList row.comment.natspec.params,
   row.comment.natspec.returns,
   commaList row.codes.keywords,
   commaList row.codes.topics]

def parameterFields (project file : String) (row : ParameterRow) : List String :=
  [project,
   file,
   row.declaration.name,
   row.declaration.owner,
   row.declaration.contract,
   row.declaration.type,
   row.declaration.category,
   row.declaration.initial.getD "",
   row.declaration.visibility,
   row.comment.description,
   row.comment.full,
   row.comment.inline]

def objectsCsv (project : String) (files : List LabelledTables) : String :=
  Csv.document objectTitles <| files.flatMap fun file =>
    file.tables.objects.map (objectFields project file.label)

def parametersCsv (project : String) (files : List LabelledTables) : String :=
  Csv.document parameterTitles <| files.flatMap fun file =>
    file.tables.parameters.map (parameterFields project file.label)

end ContractTables
