import ContractTables.Proofs.Comment.Entries
import ContractTables.Source

/-!
The passes over the tables row by row. They write comments and codes only, so definitions
and declarations stay as they are. The comment of a declaration runs through three steps:
the entry it keeps describes it, the comment found in its own window fills what is still
empty, and what repeats the comment of its definition is blanked.
-/
namespace ContractTables

open Text

def DefinitionComment.replaced (comment : DefinitionComment) (found : Option FoundComment) :
    DefinitionComment :=
  (found.map FoundComment.comment).getD comment

def DefinitionComment.unlicensed (comment : DefinitionComment) (kind : DefinitionKind) :
    DefinitionComment :=
  { comment with
    description :=
      Comment.blankIf (kind = .contract && Comment.isLicence comment.description)
        comment.description }

def ObjectRow.coded (row : ObjectRow) (codes : Codes) : ObjectRow := { row with codes }

def DeclarationComment.filled (comment : DeclarationComment) :
    Option DeclarationComment → DeclarationComment
  | none => comment
  | some found =>
      { full := Comment.fill comment.full found.full
        description := Comment.fill comment.description found.description
        inline := Comment.fill comment.inline found.inline }

def DeclarationComment.unrepeated (comment : DeclarationComment) :
    Option DefinitionComment → DeclarationComment
  | none => comment
  | some parent =>
      let documented := occurs "@param".toList parent.full.toList
      { comment with
        full := Comment.blankIf (comment.full = parent.full || documented) comment.full
        description :=
          Comment.blankIf (comment.description = parent.description) comment.description }

def DeclarationComment.settled (comment : DeclarationComment) (doc : Option Comment.ParamDoc)
    (found : Option DeclarationComment) (parent : Option DefinitionComment) :
    DeclarationComment :=
  ((comment.described doc).filled found).unrepeated parent

namespace Comment

def foundBeside (lines : List Line) (declarations : List Declaration) :
    List (Option DeclarationComment) :=
  (withPrevious 0 (declarations.map (·.line))).map fun (previous, line) =>
    ofDeclaration? (declarationWindow lines previous line)

/-- The definitions with their comments, licences still included. -/
def commented (lines : List Line) (tables : Tables) : List ObjectRow :=
  tables.objects.zipWith setComment (foundAbove lines tables.definitions)

def parentComment? (objects : List ObjectRow) (declaration : Declaration) :
    Option DefinitionComment :=
  (objects.find? fun object => declaration.belongsTo object.definition).map (·.comment)

@[simp] theorem fill_empty (found : String) : fill "" found = found := rfl

@[simp] theorem blankIf_empty (condition : Bool) : blankIf condition "" = "" := by
  cases condition <;> rfl

/-- A blanked field is filled with what it held, and a field that was kept is kept. -/
@[simp] theorem fill_blankIf (condition : Bool) (text : String) :
    fill (blankIf condition text) text = text := by
  cases condition with
  | true => rfl
  | false =>
      by_cases empty : text.isEmpty
      · simp [blankIf, fill, empty]
      · simp [blankIf, fill, empty]

@[simp] theorem fill_self (text : String) : fill text text = text := by
  simp [fill]

theorem blankIf_eq_empty_iff {condition : Bool} {text : String} :
    blankIf condition text = "" ↔ condition ∨ text = "" := by
  cases condition <;> simp [blankIf]

theorem setComment_eq (row : ObjectRow) (found : Option FoundComment) :
    setComment row found = { row with comment := row.comment.replaced found } := by
  cases found <;> rfl

theorem dropLicence_eq (row : ObjectRow) :
    dropLicence row = { row with comment := row.comment.unlicensed row.definition.kind } := by
  by_cases licence : row.definition.kind = .contract && isLicence row.comment.description
  · simp [dropLicence, DefinitionComment.unlicensed, blankIf, licence]
  · simp [dropLicence, DefinitionComment.unlicensed, blankIf, licence]

theorem fillComment_eq (row : ParameterRow) (found : Option DeclarationComment) :
    fillComment row found = { row with comment := row.comment.filled found } := by
  cases found <;> rfl

theorem dropRepeated_eq (objects : List ObjectRow) (row : ParameterRow) :
    dropRepeated objects row =
      { row with comment := row.comment.unrepeated (parentComment? objects row.declaration) } := by
  unfold dropRepeated parentComment? ParameterRow.belongsTo
  cases objects.find? fun object => row.declaration.belongsTo object.definition <;> rfl

@[simp] theorem declaration_describeWith (row : ParameterRow) (doc : Option ParamDoc) :
    (describeWith row doc).declaration = row.declaration := rfl

@[simp] theorem declaration_fillComment (row : ParameterRow)
    (found : Option DeclarationComment) :
    (fillComment row found).declaration = row.declaration := by
  rw [fillComment_eq]

@[simp] theorem declaration_dropRepeated (objects : List ObjectRow) (row : ParameterRow) :
    (dropRepeated objects row).declaration = row.declaration := by
  rw [dropRepeated_eq]

theorem length_withPrevious {α : Type} (first : α) (items : List α) :
    (withPrevious first items).length = items.length := by
  simp [withPrevious]

theorem getElem?_withPrevious {α : Type} (first : α) {items : List α} {i : Nat} {item : α}
    (here : items[i]? = some item) :
    (withPrevious first items)[i]? = some ((first :: items)[i]?.getD first, item) := by
  have inside : i < (first :: items).length := by
    have := (List.getElem?_eq_some_iff.mp here).1
    rw [List.length_cons]
    omega
  apply List.getElem?_zip_eq_some.mpr
  constructor
  · rw [List.getElem?_eq_getElem inside]
    rfl
  · exact here

theorem length_foundAbove (lines : List Line) (definitions : List Definition) :
    (foundAbove lines definitions).length = definitions.length := by
  simp [foundAbove, definitionComments, length_withPrevious]

theorem length_foundBeside (lines : List Line) (declarations : List Declaration) :
    (foundBeside lines declarations).length = declarations.length := by
  simp [foundBeside, length_withPrevious]

@[simp] theorem definition_setComment (row : ObjectRow) (found : Option FoundComment) :
    (setComment row found).definition = row.definition := by
  rw [setComment_eq]

@[simp] theorem definition_dropLicence (row : ObjectRow) :
    (dropLicence row).definition = row.definition := by
  rw [dropLicence_eq]

theorem map_zipWith_of_kept {α β γ : Type} {write : α → β → α} {view : α → γ}
    (kept : ∀ row found, view (write row found) = view row) (rows : List α) (found : List β)
    (long : rows.length = found.length) : (rows.zipWith write found).map view = rows.map view := by
  induction rows generalizing found with
  | nil => simp
  | cons row rest ih =>
      cases found with
      | nil => simp at long
      | cons next later => simp [kept, ih later (by simpa using long)]

theorem definitions_commented (lines : List Line) (tables : Tables) :
    (commented lines tables).map (·.definition) = tables.definitions :=
  map_zipWith_of_kept definition_setComment tables.objects _
    (by simp [length_foundAbove, Tables.definitions])

theorem attachToObjects_objects (lines : List Line) (tables : Tables) :
    (attachToObjects lines tables).objects = commented lines tables := by
  rw [commented, foundAbove, Tables.spans_definitions]
  rfl

theorem attachToObjects_declarations (lines : List Line) (tables : Tables) :
    (attachToObjects lines tables).declarations = tables.declarations := by
  have dealt : tables.parameters.length =
      (deal (entries lines tables.definitions) tables.declarations).length := by
    simp [length_deal, Tables.declarations]
  rw [Tables.declarations, attachToObjects_parameters]
  exact map_zipWith_of_kept declaration_describeWith tables.parameters _ dealt

end Comment

namespace Tables

open Comment

def codesIn (taxonomy : Taxonomy) (tables : Tables) (object : ObjectRow) : Codes :=
  Coding.codes taxonomy object (tables.parametersOf object)

theorem objects_annotate (lines : List Line) (tables : Tables) :
    (tables.annotate lines).objects = (commented lines tables).map dropLicence := by
  rw [← attachToObjects_objects]
  rfl

theorem parameters_annotate (lines : List Line) (tables : Tables) :
    (tables.annotate lines).parameters =
      ((tables.parameters.zipWith describeWith
        (deal (entries lines tables.definitions) tables.declarations)).zipWith fillComment
          (foundBeside lines tables.declarations)).map
        (Comment.dropRepeated (commented lines tables)) := by
  have at_lines : tables.declarations.map (·.line) =
      (attachToObjects lines tables).parameters.map (·.declaration.line) := by
    rw [← attachToObjects_declarations lines tables]
    simp [declarations]
  rw [← attachToObjects_parameters, ← attachToObjects_objects, foundBeside, at_lines]
  rfl

@[simp] theorem definitions_annotate (lines : List Line) (tables : Tables) :
    (tables.annotate lines).definitions = tables.definitions := by
  rw [definitions, objects_annotate, List.map_map, ← definitions_commented lines]
  exact List.map_congr_left fun row _ => definition_dropLicence row

/-- Each parameter is settled on its own: by the entry it keeps, the comment found in its
window and the comment of its definition. -/
theorem getElem?_parameters_annotate (lines : List Line) (tables : Tables) {i : Nat}
    {row : ParameterRow} (here : tables.parameters[i]? = some row) :
    ∃ doc found,
      (deal (entries lines tables.definitions) tables.declarations)[i]? = some doc ∧
      (foundBeside lines tables.declarations)[i]? = some found ∧
      (tables.annotate lines).parameters[i]? = some { row with
        comment := row.comment.settled doc found
          (parentComment? (commented lines tables) row.declaration) } := by
  have inside : i < tables.declarations.length := by
    simpa [declarations] using (List.getElem?_eq_some_iff.mp here).1
  have dealt : i < (deal (entries lines tables.definitions) tables.declarations).length := by
    rwa [length_deal]
  have beside : i < (foundBeside lines tables.declarations).length := by
    rwa [length_foundBeside]
  refine ⟨_, _, List.getElem?_eq_getElem dealt, List.getElem?_eq_getElem beside, ?_⟩
  simp only [parameters_annotate, List.getElem?_map, List.getElem?_zipWith, here,
    List.getElem?_eq_getElem dealt, List.getElem?_eq_getElem beside, Option.map_some,
    fillComment_eq, dropRepeated_eq]
  rfl

@[simp] theorem declarations_annotate (lines : List Line) (tables : Tables) :
    (tables.annotate lines).declarations = tables.declarations := by
  have beside : (attachToObjects lines tables).parameters.length =
      (foundBeside lines tables.declarations).length := by
    rw [length_foundBeside, ← attachToObjects_declarations lines tables]
    simp [declarations]
  have kept : ((·.declaration) ∘ Comment.dropRepeated (commented lines tables)) =
      ParameterRow.declaration := funext fun row => declaration_dropRepeated _ row
  rw [declarations, parameters_annotate, ← attachToObjects_parameters, List.map_map, kept,
    map_zipWith_of_kept declaration_fillComment _ _ beside]
  exact attachToObjects_declarations lines tables

theorem objects_code (taxonomy : Taxonomy) (tables : Tables) :
    (tables.code taxonomy).objects =
      tables.objects.map fun object => object.coded (tables.codesIn taxonomy object) := rfl

@[simp] theorem definitions_code (taxonomy : Taxonomy) (tables : Tables) :
    (tables.code taxonomy).definitions = tables.definitions := by
  rw [definitions, objects_code, List.map_map]
  rfl

def finish (lines : List Line) (taxonomy : Taxonomy) (tables : Tables) : Tables :=
  (tables.annotate lines).code taxonomy

section Finish

variable (lines : List Line) (taxonomy : Taxonomy) (tables : Tables)

@[simp] theorem definitions_finish :
    (finish lines taxonomy tables).definitions = tables.definitions := by
  rw [finish, definitions_code, definitions_annotate]

@[simp] theorem declarations_finish :
    (finish lines taxonomy tables).declarations = tables.declarations :=
  declarations_annotate lines tables

theorem getElem?_declarations_of_finish {i : Nat} {row : ParameterRow}
    (here : (finish lines taxonomy tables).parameters[i]? = some row) :
    tables.declarations[i]? = some row.declaration := by
  rw [← declarations_finish lines taxonomy, declarations, List.getElem?_map, here]
  rfl

theorem objects_finish :
    (finish lines taxonomy tables).objects = (commented lines tables).map fun row =>
      (dropLicence row).coded ((tables.annotate lines).codesIn taxonomy (dropLicence row)) := by
  rw [finish, objects_code, objects_annotate, List.map_map]
  rfl

end Finish

structure Bare (tables : Tables) : Prop where
  objects : ∀ row ∈ tables.objects, row.comment = {}
  parameters : ∀ row ∈ tables.parameters, row.comment = {}

theorem bare_extract {root : Node} {ignored : List String} {tables : Tables}
    (extracted : extract root ignored = .ok tables) : tables.Bare := by
  rw [eq_ofItems_of_extract extracted]
  constructor
  · intro row member
    obtain ⟨definition, _, rfl⟩ := List.mem_map.mp member
    rfl
  · intro row member
    obtain ⟨declaration, _, rfl⟩ := List.mem_map.mp member
    rfl

theorem parse_eq_finish (settings : Settings) (root : Node) (lines : List Line) :
    parse settings root lines =
      (extract root settings.ignoredContracts).map (finish lines settings.taxonomy) := rfl

theorem exists_bare_of_parse {settings : Settings} {root : Node} {lines : List Line}
    {tables : Tables} (parsed : parse settings root lines = .ok tables) :
    ∃ bare, extract root settings.ignoredContracts = .ok bare ∧ bare.Bare ∧
      finish lines settings.taxonomy bare = tables := by
  rw [parse_eq_finish] at parsed
  cases extracted : extract root settings.ignoredContracts with
  | error fault =>
      rw [extracted] at parsed
      cases parsed
  | ok bare =>
      rw [extracted] at parsed
      exact ⟨bare, rfl, bare_extract extracted, Except.ok.inj parsed⟩

end Tables
end ContractTables
