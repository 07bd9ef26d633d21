import ContractTables.Proofs.Comment.Passes

/-!
Which columns the source lines and the taxonomy reach. Stripped of comments and codes, the
finished tables are the tables of the syntax tree alone, row for row; stripped of codes
they do not depend on the taxonomy.
-/
namespace ContractTables

open Text

def ObjectRow.stripped (row : ObjectRow) : ObjectRow where
  definition := row.definition
  comment := { natspec := { other := .empty } }

def ParameterRow.stripped (row : ParameterRow) : ParameterRow := { declaration := row.declaration }

namespace Tables

def stripped (tables : Tables) : Tables :=
  { tables with
    objects := tables.objects.map ObjectRow.stripped
    parameters := tables.parameters.map ParameterRow.stripped }

def uncoded (tables : Tables) : Tables :=
  { tables with objects := tables.objects.map (·.coded {}) }

/-- What is left of stripped tables is in their definitions, declarations and diagnostics. -/
theorem stripped_eq (tables : Tables) :
    tables.stripped =
      { objects := tables.definitions.map fun definition => { definition }
        parameters := tables.declarations.map fun declaration => { declaration }
        diagnostics := tables.diagnostics } := by
  rw [stripped, definitions, declarations, List.map_map, List.map_map]
  rfl

theorem stripped_finish (lines : List Line) (taxonomy : Taxonomy) (tables : Tables) :
    (finish lines taxonomy tables).stripped = tables.stripped := by
  have diagnostics : (finish lines taxonomy tables).diagnostics = tables.diagnostics := rfl
  rw [stripped_eq, stripped_eq, definitions_finish, declarations_finish, diagnostics]

theorem stripped_ofItems (items : List Item) : (ofItems items).stripped = ofItems items := by
  rw [stripped_eq, definitions_ofItems, declarations_ofItems]
  rfl

theorem stripped_of_extract {root : Node} {ignored : List String} {tables : Tables}
    (extracted : extract root ignored = .ok tables) : tables.stripped = tables := by
  rw [eq_ofItems_of_extract extracted, stripped_ofItems]

theorem uncoded_code (taxonomy : Taxonomy) (tables : Tables) :
    (tables.code taxonomy).uncoded = tables.uncoded := by
  rw [uncoded, objects_code, List.map_map]
  rfl

/-- Two sources and two taxonomies give the rows and diagnostics of the syntax tree, or the
fault that it has, and differ in comments and codes only; two taxonomies differ in codes
only. -/
theorem parse_reaches_own_columns (settings : Settings) (taxonomy : Taxonomy) (root : Node)
    (lines otherLines : List Line) :
    (match parse settings root lines, parse { settings with taxonomy } root otherLines with
      | .ok tables, .ok other =>
          tables.stripped = other.stripped ∧
            extract root settings.ignoredContracts = .ok tables.stripped
      | .error fault, .error otherFault => fault = otherFault
      | _, _ => False) ∧
    (parse settings root lines).map uncoded =
      (parse { settings with taxonomy } root lines).map uncoded := by
  simp only [parse_eq_finish]
  cases extracted : extract root settings.ignoredContracts with
  | error fault => exact ⟨rfl, rfl⟩
  | ok bare =>
      have first := stripped_finish lines settings.taxonomy bare
      have second := stripped_finish otherLines taxonomy bare
      constructor
      · refine ⟨first.trans second.symm, ?_⟩
        rw [first, stripped_of_extract extracted]
      · have codes : (finish lines settings.taxonomy bare).uncoded =
            (finish lines taxonomy bare).uncoded := by
          rw [finish, finish, uncoded_code, uncoded_code]
        exact congrArg Except.ok codes

end Tables
end ContractTables
