import Mathlib.Data.List.Basic
import Mathlib.Data.List.Flatten
import ContractTables.Coding.Codes

/-!
Codes category by category. The keywords are the names of the categories that are found, and
the topics are looked up under the first categories of these names. The order of the
parameters plays no part, and more parameters put further codes between those that were
there.
-/
namespace ContractTables

/-- The category whose topics stand for a category: the first one of its name. -/
def Taxonomy.bearer (taxonomy : Taxonomy) (category : Category) : Category :=
  (taxonomy.find? category.name).getD category

theorem Taxonomy.find?_name_of_mem {taxonomy : Taxonomy} {category : Category}
    (member : category ∈ taxonomy.categories) :
    taxonomy.find? category.name = some (taxonomy.bearer category) := by
  have named : (taxonomy.find? category.name).isSome :=
    List.find?_isSome.mpr ⟨category, member, decide_eq_true rfl⟩
  rw [bearer, Option.getD_of_ne_none (Option.isSome_iff_ne_none.mp named)]

namespace Coding

def matched (taxonomy : Taxonomy) (object : ObjectRow) (parameters : List ParameterRow) :
    List Category :=
  taxonomy.categories.filter fun category => category.keywords.any (mentions object parameters)

def topicsUnder (taxonomy : Taxonomy) (object : ObjectRow) (parameters : List ParameterRow)
    (category : Category) : List String :=
  (taxonomy.bearer category).topics.filter (mentions object parameters)

theorem any_of_subset {words others : List String} {p : String → Bool} (covered : words ⊆ others)
    (found : words.any p) : others.any p := by
  obtain ⟨word, member, holds⟩ := List.any_eq_true.mp found
  exact List.any_eq_true.mpr ⟨word, covered member, holds⟩

/-- A word that is found is found among more parameters as well. -/
theorem mentions_of_subset {object : ObjectRow} {few more : List ParameterRow} {word : String}
    (covered : few ⊆ more) (found : mentions object few word) : mentions object more word := by
  rw [mentions, Bool.or_eq_true] at found ⊢
  exact found.imp
    (any_of_subset (List.cons_subset_cons _ (List.map_subset _ covered)))
    (any_of_subset (List.cons_subset_cons _ (List.map_subset _ covered)))

section Run

variable (taxonomy : Taxonomy) (object : ObjectRow) (parameters : List ParameterRow)

theorem keywords_eq_map :
    keywords taxonomy object parameters =
      (matched taxonomy object parameters).map Category.name := rfl

/-- Looking the names up again gives the first categories of these names. -/
theorem topics_keywords :
    topics taxonomy (keywords taxonomy object parameters) object parameters =
      (matched taxonomy object parameters).flatMap (topicsUnder taxonomy object parameters) := by
  have bearers : (keywords taxonomy object parameters).filterMap taxonomy.find? =
      (matched taxonomy object parameters).map taxonomy.bearer := by
    rw [keywords_eq_map, List.filterMap_map, List.filterMap_eq_map_iff_forall_eq_some]
    intro category member
    exact Taxonomy.find?_name_of_mem (List.mem_filter.mp member).1
  rw [topics, bearers, List.flatMap_map]
  rfl

end Run

section Growth

variable (taxonomy : Taxonomy) (object : ObjectRow) {few more : List ParameterRow}
  (covered : few ⊆ more)

include covered

theorem matched_sublist : (matched taxonomy object few).Sublist (matched taxonomy object more) :=
  List.monotone_filter_right taxonomy.categories fun _ found =>
    List.any_eq_true.mpr <| (List.any_eq_true.mp found).imp fun _ word =>
      word.imp_right (mentions_of_subset covered)

theorem topicsUnder_sublist (category : Category) :
    (topicsUnder taxonomy object few category).Sublist
      (topicsUnder taxonomy object more category) :=
  List.monotone_filter_right _ fun _ => mentions_of_subset covered

/-- More parameters find more topics under each category, and more categories. -/
theorem topics_sublist :
    (topics taxonomy (keywords taxonomy object few) object few).Sublist
      (topics taxonomy (keywords taxonomy object more) object more) := by
  rw [topics_keywords, topics_keywords]
  -- Topics are added within the categories first, and then categories.
  have within : ((matched taxonomy object few).flatMap (topicsUnder taxonomy object few)).Sublist
      ((matched taxonomy object few).flatMap (topicsUnder taxonomy object more)) :=
    List.Sublist.flatMap_right _ fun category _ =>
      topicsUnder_sublist taxonomy object covered category
  exact within.trans ((matched_sublist taxonomy object covered).flatMap _)

end Growth

theorem mentions_of_perm (object : ObjectRow) {parameters others : List ParameterRow}
    (reordered : parameters.Perm others) : mentions object parameters = mentions object others := by
  funext word
  rw [Bool.eq_iff_iff]
  exact ⟨mentions_of_subset reordered.subset, mentions_of_subset reordered.symm.subset⟩

/-- Parameters in another order give the same codes. More parameters give more of them, with
those that were there in the same order. -/
theorem codes_of_perm_and_subset (taxonomy : Taxonomy) (object : ObjectRow)
    (parameters others : List ParameterRow) :
    (parameters.Perm others →
      keywords taxonomy object parameters = keywords taxonomy object others ∧
        topics taxonomy (keywords taxonomy object parameters) object parameters =
          topics taxonomy (keywords taxonomy object others) object others) ∧
    (parameters ⊆ others →
      (keywords taxonomy object parameters).Sublist (keywords taxonomy object others) ∧
        (topics taxonomy (keywords taxonomy object parameters) object parameters).Sublist
          (topics taxonomy (keywords taxonomy object others) object others)) := by
  constructor
  · intro reordered
    have same := mentions_of_perm object reordered
    constructor
    · rw [keywords, keywords, same]
    · rw [topics, topics, keywords, keywords, same]
  · intro covered
    constructor
    · exact (matched_sublist taxonomy object covered).map Category.name
    · exact topics_sublist taxonomy object covered

def submit : ObjectRow where
  definition := ⟨"submit", .function, "Dao", [], [], [], "", ⟨1, 1⟩⟩
  comment := { description := "Creates an entry", natspec := { other := .empty } }

def ballot : ParameterRow where
  declaration := ⟨"ballotId", "submit", "Dao", "uint256", "uint", none, 1, ""⟩

def juror : ParameterRow where
  declaration := ⟨"who", "submit", "Dao", "address", "address", none, 1, ""⟩
  comment := { description := "the juror raising the dispute" }

theorem codes_of_submit :
    (keywords .governance submit [juror, ballot] = keywords .governance submit [ballot, juror] ∧
      topics .governance (keywords .governance submit [juror, ballot]) submit [juror, ballot] =
        topics .governance (keywords .governance submit [ballot, juror]) submit [ballot, juror]) ∧
    (keywords .governance submit [juror]).Sublist (keywords .governance submit [ballot, juror]) ∧
      (topics .governance (keywords .governance submit [juror]) submit [juror]).Sublist
        (topics .governance (keywords .governance submit [ballot, juror]) submit [ballot, juror]) :=
  ⟨(codes_of_perm_and_subset _ _ _ _).1 (List.Perm.swap ballot juror []),
    (codes_of_perm_and_subset _ _ _ _).2 (List.subset_cons_self ballot [juror])⟩

end Coding
end ContractTables
