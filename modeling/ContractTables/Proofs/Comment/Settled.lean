import ContractTables.Proofs.Comment.Passes

/-!
What holds of the comments once all passes are over, whatever the tables were before. The
third pass compares each parameter with its definition. The last one takes descriptions
away from definitions that have been compared already, and no parameter comes to repeat its
definition by that.
-/
namespace ContractTables

open Text

structure DeclarationComment.Tells (comment : DeclarationComment) (parent : DefinitionComment) :
    Prop where
  description : comment.description = "" ∨ comment.description ≠ parent.description
  full : comment.full = "" ∨
    comment.full ≠ parent.full ∧ ¬ occurs "@param".toList parent.full.toList

namespace Comment

/-- Blanking leaves nothing, or a text for which the condition does not hold. -/
theorem blankIf_cases (condition : Bool) (text : String) :
    blankIf condition text = "" ∨ condition = false ∧ blankIf condition text = text := by
  cases condition with
  | true => exact .inl rfl
  | false => exact .inr ⟨rfl, rfl⟩

theorem tells_unrepeated (comment : DeclarationComment) (parent : DefinitionComment) :
    (comment.unrepeated (some parent)).Tells parent := by
  constructor
  · apply (blankIf_cases (comment.description = parent.description) comment.description).imp_right
    rintro ⟨differs, kept⟩
    rw [DeclarationComment.unrepeated, kept]
    exact of_decide_eq_false differs
  · apply (blankIf_cases (comment.full = parent.full ||
      occurs "@param".toList parent.full.toList) comment.full).imp_right
    rintro ⟨differs, kept⟩
    rw [Bool.or_eq_false_iff] at differs
    rw [DeclarationComment.unrepeated, kept]
    exact ⟨of_decide_eq_false differs.1, Bool.eq_false_iff.mp differs.2⟩

/-- Where a definition loses its description there is nothing left to repeat. -/
theorem tells_unlicensed {comment : DeclarationComment} {parent : DefinitionComment}
    (tells : comment.Tells parent) (kind : DefinitionKind) :
    comment.Tells (parent.unlicensed kind) where
  description := by
    rw [DefinitionComment.unlicensed]
    rcases blankIf_cases (kind = .contract && isLicence parent.description) parent.description
      with blank | ⟨_, kept⟩
    · rw [blank]
      exact Decidable.em (comment.description = "")
    · rw [kept]
      exact tells.description
  full := tells.full

theorem isLicence_iff {description : String} :
    isLicence description ↔
      ∃ mark ∈ ["License", "Copyright"], occurs mark.toList description.toList :=
  List.any_eq_true

theorem not_isLicence_unlicensed (comment : DefinitionComment) :
    ¬ isLicence (comment.unlicensed .contract).description := by
  have cleared : (comment.unlicensed .contract).description =
      blankIf (isLicence comment.description) comment.description := rfl
  rw [cleared]
  rcases blankIf_cases (isLicence comment.description) comment.description with
    blank | ⟨plain, kept⟩
  · rw [blank]
    decide
  · rw [kept, plain]
    exact Bool.false_ne_true

end Comment

namespace Tables

open Comment

def Told (tables : Tables) : Prop :=
  ∀ row ∈ tables.parameters, ∀ object,
    tables.objects.find? (row.belongsTo ·) = some object → row.comment.Tells object.comment

def Unlicensed (tables : Tables) : Prop :=
  ∀ object ∈ tables.objects, object.definition.kind = .contract →
    ∀ mark ∈ ["License", "Copyright"], ¬ occurs mark.toList object.comment.description.toList

theorem told_dropRepeated (tables : Tables) : tables.dropRepeated.Told := by
  intro row member object first
  obtain ⟨source, _, rfl⟩ := List.mem_map.mp member
  have parent : parentComment? tables.objects source.declaration = some object.comment := by
    simp only [ParameterRow.belongsTo, declaration_dropRepeated] at first
    exact congrArg (Option.map (·.comment)) first
  rw [dropRepeated_eq, parent]
  exact tells_unrepeated source.comment object.comment

theorem told_dropLicences {tables : Tables} (told : tables.Told) : tables.dropLicences.Told := by
  intro row member object first
  rw [dropLicences, List.find?_map] at first
  obtain ⟨source, found, rfl⟩ := Option.map_eq_some_iff.mp first
  -- Whom a row belongs to is a matter of names, which no pass changes.
  simp only [Function.comp_def, ParameterRow.belongsTo, definition_dropLicence] at found
  rw [dropLicence_eq]
  exact tells_unlicensed (told row member source found) source.definition.kind

theorem unlicensed_dropLicences (tables : Tables) : tables.dropLicences.Unlicensed := by
  intro object member contract mark among marked
  obtain ⟨source, _, rfl⟩ := List.mem_map.mp member
  rw [definition_dropLicence] at contract
  rw [dropLicence_eq, contract] at marked
  exact not_isLicence_unlicensed source.comment (isLicence_iff.mpr ⟨mark, among, marked⟩)

/-- In annotated tables no parameter repeats the comment of its definition and no contract
is described by a licence. -/
theorem told_and_unlicensed_annotate (tables : Tables) (lines : List Line) :
    (tables.annotate lines).Told ∧ (tables.annotate lines).Unlicensed := by
  constructor
  · exact told_dropLicences (told_dropRepeated _)
  · exact unlicensed_dropLicences _

end Tables
end ContractTables
