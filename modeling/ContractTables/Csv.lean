/-!
Comma-separated records. A field that holds a comma, a quote or a line break is quoted,
and quotes inside it are written twice; every record ends with a line feed. The titles
in front of the records are written as they are.
-/
namespace ContractTables.Csv

def isSpecial (c : Char) : Bool := c = ',' || c = '"' || c = '\n' || c = '\r'

def doubleQuote (c : Char) : List Char := if c = '"' then ['"', '"'] else [c]

def field (text : List Char) : List Char :=
  if text.any isSpecial then '"' :: text.flatMap doubleQuote ++ ['"'] else text

def record (fields : List String) : List Char :=
  [','].intercalate (fields.map fun text => field text.toList) ++ ['\n']

def titleLine (titles : List String) : List Char :=
  [','].intercalate (titles.map String.toList) ++ ['\n']

def document (titles : List String) (rows : List (List String)) : String :=
  String.ofList (titleLine titles ++ rows.flatMap record)

end ContractTables.Csv
