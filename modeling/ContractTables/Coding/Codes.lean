import ContractTables.Coding.Match
import ContractTables.Coding.Taxonomy
import ContractTables.Tables

/-!
Codes of definitions. A word is looked for in the names of a definition and its
parameters and in their descriptions. The keywords of a definition are the names of the
categories one of whose keywords is found, in taxonomy order; its topics are, category by
category, the topic words that are found.
-/
namespace ContractTables

namespace Coding

def mentions (object : ObjectRow) (parameters : List ParameterRow) (word : String) : Bool :=
  (object.definition.name :: parameters.map (·.declaration.name)).any (inIdentifier · word) ||
    (object.comment.description :: parameters.map (·.comment.description)).any (inText · word)

def keywords (taxonomy : Taxonomy) (object : ObjectRow) (parameters : List ParameterRow) :
    List String :=
  (taxonomy.categories.filter fun category =>
    category.keywords.any (mentions object parameters)).map Category.name

def topics (taxonomy : Taxonomy) (names : List String) (object : ObjectRow)
    (parameters : List ParameterRow) : List String :=
  (names.filterMap taxonomy.find?).flatMap fun category =>
    category.topics.filter (mentions object parameters)

def codes (taxonomy : Taxonomy) (object : ObjectRow) (parameters : List ParameterRow) : Codes :=
  let keywords := keywords taxonomy object parameters
  { keywords, topics := topics taxonomy keywords object parameters }

end Coding

def Tables.code (taxonomy : Taxonomy) (tables : Tables) : Tables :=
  { tables with
    objects := tables.objects.map fun object =>
      { object with codes := Coding.codes taxonomy object (tables.parametersOf object) } }

end ContractTables
