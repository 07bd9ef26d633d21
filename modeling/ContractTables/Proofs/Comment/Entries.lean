import ContractTables.Comment.Annotation
import ContractTables.Proofs.Item.Owner

/-!
How `@param` entries reach declarations. The pass over the definitions writes each entry
into the first declaration of its names, one entry after another. Seen from the
declarations, the entries are dealt out: a declaration keeps the last entry that concerns
it, and none is left for a later declaration of the same names.
-/
namespace ContractTables

open Text

/-- Such declarations are one and the same to an entry. -/
def Declaration.sharesNames (first second : Declaration) : Bool :=
  first.name = second.name && first.owner = second.owner && first.contract = second.contract

def DeclarationComment.described (comment : DeclarationComment) :
    Option Comment.ParamDoc → DeclarationComment
  | none => comment
  | some doc => { comment with description := doc.description }

namespace Comment

def foundAbove (lines : List Line) (definitions : List Definition) :
    List (Option FoundComment) :=
  definitionComments lines (definitions.map (·.span))

def foundAt (lines : List Line) (definitions : List Definition) (place : Nat) :
    Option FoundComment :=
  (foundAbove lines definitions)[place]?.join

def docsAt (lines : List Line) (definitions : List Definition) (place : Nat) : List ParamDoc :=
  ((foundAt lines definitions place).map FoundComment.params).getD []

structure Entry where
  owner : Definition
  doc : ParamDoc

def Entry.concerns (entry : Entry) (declaration : Declaration) : Bool :=
  declaration.belongsTo entry.owner && declaration.name = entry.doc.name

def Entry.listed (owner : Definition) (found : Option FoundComment) : List Entry :=
  ((found.map FoundComment.params).getD []).map fun doc => ⟨owner, doc⟩

def entries (lines : List Line) (definitions : List Definition) : List Entry :=
  (definitions.zip (foundAbove lines definitions)).flatMap fun (owner, found) =>
    Entry.listed owner found

def writeEntry (rows : List ParameterRow) (entry : Entry) : List ParameterRow :=
  describe entry.owner entry.doc rows

def lastFor? (entries : List Entry) (declaration : Declaration) : Option Entry :=
  (entries.filter (·.concerns declaration)).getLast?

/-- The entry that each declaration keeps. -/
def deal : List Entry → List Declaration → List (Option ParamDoc)
  | _, [] => []
  | entries, declaration :: rest =>
      (lastFor? entries declaration).map Entry.doc ::
        deal (entries.filter (!·.concerns declaration)) rest

def describeWith (row : ParameterRow) (doc : Option ParamDoc) : ParameterRow :=
  { row with comment := row.comment.described doc }

theorem writeEntry_cons (entry : Entry) (row : ParameterRow) (rest : List ParameterRow) :
    writeEntry (row :: rest) entry =
      if entry.concerns row.declaration then describeWith row (some entry.doc) :: rest
      else row :: writeEntry rest entry := rfl

theorem foldl_writeEntry_nil (entries : List Entry) : entries.foldl writeEntry [] = [] := by
  induction entries with
  | nil => rfl
  | cons entry rest ih => exact ih

/-- The first row takes what concerns it out of the entries, whatever the other rows are. -/
theorem foldl_writeEntry_cons (entries : List Entry) (row : ParameterRow)
    (rest : List ParameterRow) :
    entries.foldl writeEntry (row :: rest) =
      describeWith row ((lastFor? entries row.declaration).map Entry.doc) ::
        (entries.filter (!·.concerns row.declaration)).foldl writeEntry rest := by
  induction entries generalizing row rest with
  | nil => rfl
  | cons entry later ih =>
      rw [List.foldl_cons, writeEntry_cons]
      by_cases concerned : entry.concerns row.declaration
      · -- The row changes but its declaration does not, so the same later entries concern it.
        rw [if_pos concerned, ih]
        have same : (describeWith row (some entry.doc)).declaration = row.declaration := rfl
        simp only [lastFor?, same, List.getLast?_cons, concerned, Bool.not_true,
          List.filter_cons, Bool.false_eq_true, ↓reduceIte]
        cases (later.filter (·.concerns row.declaration)).getLast? <;> rfl
      · rw [if_neg concerned, ih]
        simp [lastFor?, concerned]

theorem foldl_writeEntry (entries : List Entry) (rows : List ParameterRow) :
    entries.foldl writeEntry rows =
      rows.zipWith describeWith (deal entries (rows.map (·.declaration))) := by
  induction rows generalizing entries with
  | nil => simpa using foldl_writeEntry_nil entries
  | cons row rest ih => rw [foldl_writeEntry_cons, ih]; rfl

theorem attachToObjects_parameters (lines : List Line) (tables : Tables) :
    (attachToObjects lines tables).parameters =
      tables.parameters.zipWith describeWith
        (deal (entries lines tables.definitions) tables.declarations) := by
  rw [Tables.declarations, ← foldl_writeEntry, entries, foundAbove, Tables.spans_definitions,
    List.foldl_flatMap, Tables.definitions, List.zip_map_left, List.foldl_map]
  simp only [Entry.listed, List.foldl_map, Prod.map]
  rfl

theorem length_deal (entries : List Entry) (declarations : List Declaration) :
    (deal entries declarations).length = declarations.length := by
  induction declarations generalizing entries with
  | nil => rfl
  | cons declaration rest ih => simp [deal, ih]

theorem concerns_of_sharesNames {first second : Declaration}
    (shared : first.sharesNames second) (entry : Entry) :
    entry.concerns first = entry.concerns second := by
  simp only [Declaration.sharesNames, Bool.and_eq_true, decide_eq_true_eq] at shared
  simp [Entry.concerns, Declaration.belongsTo, shared]

theorem sharesNames_of_concerns {first second : Declaration} {entry : Entry}
    (concerned : entry.concerns first) (also : entry.concerns second) :
    first.sharesNames second := by
  simp only [Entry.concerns, Declaration.belongsTo, Bool.and_eq_true, decide_eq_true_eq]
    at concerned also
  simp [Declaration.sharesNames, concerned, also]

/-- A declaration gets the last entry that concerns it if it is the first of its names,
and nothing otherwise. -/
theorem getElem?_deal (entries : List Entry) (declarations : List Declaration) (i : Nat) :
    (deal entries declarations)[i]? = declarations[i]?.map fun declaration =>
      if (declarations.take i).any (·.sharesNames declaration) then none
      else (lastFor? entries declaration).map Entry.doc := by
  induction declarations generalizing entries i with
  | nil => simp [deal]
  | cons first rest ih =>
      cases i with
      | zero => simp [deal]
      | succ i =>
          rw [deal, List.getElem?_cons_succ, ih, List.getElem?_cons_succ]
          refine Option.map_congr fun declaration _ => ?_
          rw [List.take_succ_cons, List.any_cons, lastFor?, lastFor?, List.filter_filter]
          -- `first` takes along every entry of its names and no entry of other names.
          by_cases shared : first.sharesNames declaration
          · have none_left : entries.filter (fun entry =>
                entry.concerns declaration && !entry.concerns first) = [] := by
              simp [concerns_of_sharesNames shared]
            simp [shared, none_left]
          · have all_left : ∀ entry : Entry,
                (entry.concerns declaration && !entry.concerns first) =
                  entry.concerns declaration := by
              intro entry
              by_cases taken : entry.concerns first
              · by_cases wanted : entry.concerns declaration
                · exact absurd (sharesNames_of_concerns taken wanted) shared
                · simp [wanted]
              · simp [taken]
            simp [shared, all_left]

end Comment
end ContractTables
