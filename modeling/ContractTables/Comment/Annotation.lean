import ContractTables.Comment.Found

/-!
Comments in the tables. Each definition looks at the lines between the definition before
it and itself, each declaration at the lines between the declaration before it and its
own line; then parameters lose what merely repeats their definition, and contracts lose
descriptions that are a licence.
-/
namespace ContractTables

open Text

namespace Comment

/-- The lines between a definition and the one before it. Lines count from the end of
the earlier definition, or from its first line if it encloses the later one. -/
def definitionWindow (lines : List Line) (previous span : LineSpan) : List Line :=
  let last := span.first - 1
  window lines (if previous.last ≤ last then previous.last else previous.first) last

/-- Each element together with the one before it. -/
def withPrevious {α : Type} (first : α) (items : List α) : List (α × α) :=
  (first :: items).zip items

def definitionComments (lines : List Line) (spans : List LineSpan) : List (Option FoundComment) :=
  (withPrevious ⟨0, 0⟩ spans).map fun (previous, span) =>
    ofDefinition? (definitionWindow lines previous span)

def setComment (row : ObjectRow) (found : Option FoundComment) : ObjectRow :=
  match found with
  | none => row
  | some found => { row with comment := found.comment }

/-- Describes the first parameter of that name and owner. -/
def describe (owner : Definition) (doc : ParamDoc) : List ParameterRow → List ParameterRow
  | [] => []
  | row :: rest =>
      if row.declaration.belongsTo owner && row.declaration.name = doc.name then
        { row with comment := { row.comment with description := doc.description } } :: rest
      else row :: describe owner doc rest

def describeAll (parameters : List ParameterRow) (owner : Definition)
    (found : Option FoundComment) : List ParameterRow :=
  ((found.map FoundComment.params).getD []).foldl (fun rows doc => describe owner doc rows)
    parameters

def attachToObjects (lines : List Line) (tables : Tables) : Tables :=
  let found := definitionComments lines (tables.objects.map (·.definition.span))
  { tables with
    objects := tables.objects.zipWith setComment found
    parameters := (tables.objects.zip found).foldl
      (fun rows (object, found) => describeAll rows object.definition found) tables.parameters }

def declarationWindow (lines : List Line) (previous line : Nat) : List Line :=
  window lines (min previous (line - 2)) line

def fill (present found : String) : String := if present.isEmpty then found else present

def fillComment (row : ParameterRow) (found : Option DeclarationComment) : ParameterRow :=
  match found with
  | none => row
  | some found =>
      { row with comment :=
          { full := fill row.comment.full found.full
            description := fill row.comment.description found.description
            inline := fill row.comment.inline found.inline } }

/-- Fields that are filled already are left alone. -/
def attachInline (lines : List Line) (rows : List ParameterRow) : List ParameterRow :=
  rows.zipWith fillComment <|
    (withPrevious 0 (rows.map (·.declaration.line))).map fun (previous, line) =>
      ofDeclaration? (declarationWindow lines previous line)

def blankIf (condition : Bool) (text : String) : String := if condition then "" else text

def dropRepeated (objects : List ObjectRow) (row : ParameterRow) : ParameterRow :=
  match objects.find? (row.belongsTo ·) with
  | none => row
  | some parent =>
      let documented := occurs "@param".toList parent.comment.full.toList
      { row with comment := { row.comment with
          full := blankIf (row.comment.full = parent.comment.full || documented) row.comment.full
          description :=
            blankIf (row.comment.description = parent.comment.description) row.comment.description } }

def isLicence (description : String) : Bool :=
  ["License", "Copyright"].any fun mark => occurs mark.toList description.toList

def dropLicence (row : ObjectRow) : ObjectRow :=
  if row.definition.kind = .contract && isLicence row.comment.description then
    { row with comment := { row.comment with description := "" } }
  else row

end Comment

namespace Tables

def attachInline (lines : List Line) (tables : Tables) : Tables :=
  { tables with parameters := Comment.attachInline lines tables.parameters }

def dropRepeated (tables : Tables) : Tables :=
  { tables with parameters := tables.parameters.map (Comment.dropRepeated tables.objects) }

def dropLicences (tables : Tables) : Tables :=
  { tables with objects := tables.objects.map Comment.dropLicence }

def annotate (lines : List Line) (tables : Tables) : Tables :=
  (attachInline lines (Comment.attachToObjects lines tables)).dropRepeated.dropLicences

end Tables
end ContractTables
