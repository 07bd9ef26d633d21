import ContractTables.Proofs.Comment.Passes
import ContractTables.Proofs.Document

/-!
Finished tables are stable. The second time the passes start from comments of which some
were blanked; these are filled from the same windows and blanked for the same reasons,
because the comment of a definition is read off the source again before anything is
compared with it. Codes are looked for in what the passes leave, so they stay as well.
-/
namespace ContractTables

open Text

/-- What was blanked is found again in the same places. -/
theorem DeclarationComment.filled_settled (doc : Option Comment.ParamDoc)
    (found : Option DeclarationComment) (parent : Option DefinitionComment) :
    ((DeclarationComment.settled {} doc found parent).described doc).filled found =
      (DeclarationComment.described {} doc).filled found := by
  cases parent with
  | none => cases doc <;> cases found <;> simp [settled, described, filled, unrepeated]
  | some parent => cases doc <;> cases found <;> simp [settled, described, filled, unrepeated]

theorem DeclarationComment.settled_settled (doc : Option Comment.ParamDoc)
    (found : Option DeclarationComment) (parent : Option DefinitionComment) :
    (DeclarationComment.settled {} doc found parent).settled doc found parent =
      DeclarationComment.settled {} doc found parent := by
  calc (DeclarationComment.settled {} doc found parent).settled doc found parent
      = (((DeclarationComment.settled {} doc found parent).described doc).filled
          found).unrepeated parent := rfl
    _ = ((DeclarationComment.described {} doc).filled found).unrepeated parent := by
        rw [filled_settled]

theorem DefinitionComment.unlicensed_empty (kind : DefinitionKind) :
    DefinitionComment.unlicensed {} kind = {} := by
  simp [unlicensed]

/-- A definition without a comment in its window never had a licence to lose. -/
theorem DefinitionComment.replaced_unlicensed (found : Option FoundComment)
    (kind : DefinitionKind) :
    ((DefinitionComment.replaced {} found).unlicensed kind).replaced found =
      DefinitionComment.replaced {} found := by
  cases found with
  | none => exact unlicensed_empty kind
  | some found => rfl

namespace Comment

theorem dropLicence_coded (row : ObjectRow) (codes : Codes) :
    dropLicence (row.coded codes) = (dropLicence row).coded codes := by
  rw [dropLicence_eq, dropLicence_eq]
  rfl

theorem setComment_again (row : ObjectRow) (found : Option FoundComment) (codes : Codes)
    (bare : row.comment = {}) :
    setComment ((dropLicence (setComment row found)).coded codes) found =
      (setComment row found).coded codes := by
  simp only [setComment_eq, dropLicence_eq, ObjectRow.coded, bare,
    DefinitionComment.replaced_unlicensed]

/-- Rows that were given codes take the same comments from the source again. -/
theorem zipWith_setComment_again (codesOf : ObjectRow → Codes) (rows : List ObjectRow)
    (found : List (Option FoundComment)) (bare : ∀ row ∈ rows, row.comment = {}) :
    ((rows.zipWith setComment found).map fun row =>
        (dropLicence row).coded (codesOf row)).zipWith setComment found =
      (rows.zipWith setComment found).map fun row => row.coded (codesOf row) := by
  induction rows generalizing found with
  | nil => simp
  | cons row rest ih =>
      cases found with
      | nil => rfl
      | cons first later =>
          have head := setComment_again row first (codesOf (setComment row first))
            (bare row List.mem_cons_self)
          have tail := ih later fun other member => bare other (List.mem_cons_of_mem row member)
          simp only [List.zipWith_cons_cons, List.map_cons, head, tail]

theorem parentComment?_coded (codesOf : ObjectRow → Codes) (objects : List ObjectRow)
    (declaration : Declaration) :
    parentComment? (objects.map fun row => row.coded (codesOf row)) declaration =
      parentComment? objects declaration := by
  rw [parentComment?, List.find?_map, Option.map_map]
  rfl

end Comment

namespace Tables

open Comment

theorem codesIn_code (taxonomy : Taxonomy) (tables : Tables) (object : ObjectRow)
    (codes : Codes) :
    (tables.code taxonomy).codesIn taxonomy (object.coded codes) =
      tables.codesIn taxonomy object := rfl

theorem codes_of_mem_code {taxonomy : Taxonomy} {tables : Tables} {object : ObjectRow}
    (member : object ∈ (tables.code taxonomy).objects) :
    object.codes = (tables.code taxonomy).codesIn taxonomy object := by
  rw [objects_code] at member
  obtain ⟨source, _, rfl⟩ := List.mem_map.mp member
  rw [codesIn_code]
  rfl

theorem code_code (taxonomy : Taxonomy) (tables : Tables) :
    (tables.code taxonomy).code taxonomy = tables.code taxonomy := by
  have objects : ((tables.code taxonomy).code taxonomy).objects =
      (tables.code taxonomy).objects := by
    rw [objects_code]
    conv => rhs; rw [← List.map_id (tables.code taxonomy).objects]
    refine List.map_congr_left fun object member => ?_
    rw [← codes_of_mem_code member]
    rfl
  exact congrArg (fun objects => { tables with objects }) objects

section Again

variable (lines : List Line) (taxonomy : Taxonomy) (tables : Tables)

theorem commented_finish (bare : tables.Bare) :
    commented lines (finish lines taxonomy tables) = (commented lines tables).map fun row =>
      row.coded ((tables.annotate lines).codesIn taxonomy (dropLicence row)) := by
  rw [commented, objects_finish, definitions_finish]
  exact zipWith_setComment_again _ tables.objects _ bare.objects

theorem objects_annotate_finish (bare : tables.Bare) :
    ((finish lines taxonomy tables).annotate lines).objects =
      (finish lines taxonomy tables).objects := by
  rw [objects_annotate, commented_finish lines taxonomy tables bare, List.map_map,
    objects_finish]
  exact List.map_congr_left fun row _ => dropLicence_coded row _

theorem parameters_annotate_finish (bare : tables.Bare) :
    ((finish lines taxonomy tables).annotate lines).parameters =
      (finish lines taxonomy tables).parameters := by
  apply List.ext_getElem?
  intro i
  cases here : tables.parameters[i]? with
  | none =>
      have outside : tables.declarations.length ≤ i := by
        simpa [declarations] using List.getElem?_eq_none_iff.mp here
      have absent : ∀ other : Tables, other.declarations = tables.declarations →
          other.parameters[i]? = none := by
        intro other same
        rw [← same] at outside
        exact List.getElem?_eq_none (by simpa [declarations] using outside)
      rw [absent _ (declarations_finish lines taxonomy tables),
        absent _ ((declarations_annotate lines _).trans (declarations_finish lines taxonomy tables))]
  | some row =>
      -- Entries and windows depend on definitions and declarations only, which both runs share.
      obtain ⟨doc, found, dealt, beside, first⟩ := getElem?_parameters_annotate lines tables here
      obtain ⟨doc', found', dealt', beside', second⟩ :=
        getElem?_parameters_annotate lines (finish lines taxonomy tables) first
      rw [definitions_finish, declarations_finish] at dealt'
      rw [declarations_finish] at beside'
      obtain rfl : doc = doc' := Option.some.inj (dealt.symm.trans dealt')
      obtain rfl : found = found' := Option.some.inj (beside.symm.trans beside')
      have empty := bare.parameters row (List.mem_of_getElem? here)
      rw [second, commented_finish lines taxonomy tables bare, parentComment?_coded, empty,
        DeclarationComment.settled_settled, ← empty]
      exact first.symm

theorem annotate_finish (bare : tables.Bare) :
    (finish lines taxonomy tables).annotate lines = finish lines taxonomy tables := by
  have objects := objects_annotate_finish lines taxonomy tables bare
  have parameters := parameters_annotate_finish lines taxonomy tables bare
  calc (finish lines taxonomy tables).annotate lines
      = ⟨((finish lines taxonomy tables).annotate lines).objects,
          ((finish lines taxonomy tables).annotate lines).parameters,
          (finish lines taxonomy tables).diagnostics⟩ := rfl
    _ = finish lines taxonomy tables := by rw [objects, parameters]

end Again

/-- Annotating and coding finished tables once more, with the same lines and taxonomy,
gives them back, and their codes are those of the descriptions they hold. -/
theorem annotate_code_parse {settings : Settings} {root : Node} {lines : List Line}
    {tables : Tables} (parsed : parse settings root lines = .ok tables) :
    (tables.annotate lines).code settings.taxonomy = tables ∧
      ∀ object ∈ tables.objects,
        object.codes = Coding.codes settings.taxonomy object (tables.parametersOf object) := by
  obtain ⟨bareTables, _, bare, rfl⟩ := exists_bare_of_parse parsed
  constructor
  · rw [annotate_finish lines settings.taxonomy bareTables bare]
    exact code_code settings.taxonomy (bareTables.annotate lines)
  · intro object member
    exact codes_of_mem_code member

/-- A licence above a contract and an entry above its function, so that both passes that
take something away have something to take. -/
def poll : Node :=
  Document.ofContracts
    [Document.contract "Poll" 2 6 [Document.function "vote" 5 ["id", "weight"]]]

def pollLines : List Line :=
  ["// License: MIT", "interface Poll", "  /// Casts a vote", "  /// @param id the poll",
    "  function vote(uint id, uint weight);", ""].map String.toList

theorem annotate_code_poll :
    ∃ tables, parse {} poll pollLines = .ok tables ∧
      (tables.annotate pollLines).code Taxonomy.governance = tables ∧
      ∀ object ∈ tables.objects,
        object.codes = Coding.codes Taxonomy.governance object (tables.parametersOf object) := by
  have parsed : parse {} poll pollLines = .ok (finish pollLines .governance
      (ofItems ((Item.contracts poll).flatMap (Item.ofContract ["SafeMath"])))) := rfl
  exact ⟨_, parsed, annotate_code_parse parsed⟩

end Tables
end ContractTables
