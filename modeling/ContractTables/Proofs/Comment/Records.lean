import Mathlib.Data.List.Forall2
import ContractTables.Comment.Found
import ContractTables.Proofs.Comment.TagLines

/-!
The record of a comment. The `@param` sections are joined to one text and divided again, and
come out one by one, because no value has a line break of its own; every other tag has its
text in one place of the record.
-/
namespace ContractTables

open Text Checked

def NatSpec.fields (record : NatSpec) : List (String × String) :=
  [("title", record.title), ("notice", record.notice), ("dev", record.dev),
    ("return", record.returns)]

def NatSpec.field? (record : NatSpec) (key : String) : Option String :=
  record.fields.lookup key

/-- A record that has the text of every tag but `param` in one place, and nothing else. -/
structure NatSpec.Records (record : NatSpec) (tags : Dictionary String) : Prop where
  placed : ∀ key text, key ≠ "param" → tags.find? key = some text →
    record.field? key = some text ∧ record.other.find? key = none ∨
      record.field? key = none ∧ record.other.find? key = some text
  absent : ∀ key text, tags.find? key = none → record.field? key = some text → text = ""
  other : ∀ key text, record.other.find? key = some text →
    key ≠ "param" ∧ record.field? key = none ∧ tags.find? key = some text

namespace Comment

/-! Tags. -/

def fieldTags : List String := ["title", "notice", "dev", "return"]

theorem field?_natspec (tags : Dictionary String) (params : List ParamDoc) (key : String) :
    (natspec tags params).field? key =
      if key ∈ fieldTags then some ((tags.find? key).getD "") else none := by
  by_cases known : key ∈ fieldTags
  · rw [if_pos known]
    simp only [fieldTags, List.mem_cons, List.not_mem_nil, or_false] at known
    rcases known with rfl | rfl | rfl | rfl <;> rfl
  · rw [if_neg known]
    simp only [fieldTags, List.mem_cons, List.not_mem_nil, or_false, not_or] at known
    simp [NatSpec.field?, NatSpec.fields, List.lookup_eq_none_iff, known]

theorem other_natspec (tags : Dictionary String) (params : List ParamDoc) (key : String) :
    (natspec tags params).other.find? key =
      if key ∈ fieldTags ∨ key = "param" then none else tags.find? key := by
  have own : ownTags.contains key = true ↔ key ∈ fieldTags ∨ key = "param" := by
    simp [ownTags, fieldTags, or_assoc]
  simp only [natspec, Dictionary.find?_eraseAll, own]

theorem records_natspec (tags : Dictionary String) (params : List ParamDoc) :
    (natspec tags params).Records tags where
  placed := by
    intro key text other found
    rw [field?_natspec, other_natspec, found]
    by_cases known : key ∈ fieldTags <;> simp [known, other]
  absent := by
    intro key text missing held
    rw [field?_natspec, missing] at held
    split at held
    · exact (Option.some.inj held).symm
    · cases held
  other := by
    intro key text held
    rw [other_natspec] at held
    split at held
    · cases held
    · next unknown =>
        rw [not_or] at unknown
        refine ⟨unknown.2, ?_, held⟩
        rw [field?_natspec, if_neg unknown.1]

/-! Parameters. -/

def ParamDoc.IsCutFrom (doc : ParamDoc) (text : String) : Prop :=
  ∃ rest, text.toList = doc.name.toList ++ rest ∧
    (∀ c ∈ doc.name.toList, isBlank c = false) ∧ (∀ c, rest.head? = some c → isBlank c = true) ∧
    doc.description.toList = trim rest

theorem isCutFrom_ofLine (text : String) : (ParamDoc.ofLine text.toList).IsCutFrom text := by
  refine ⟨text.toList.dropWhile (!isBlank ·), ?_, ?_, ?_, ?_⟩
  · rw [ParamDoc.ofLine, String.toList_ofList, List.takeWhile_append_dropWhile]
  · intro c inside
    rw [ParamDoc.ofLine, String.toList_ofList] at inside
    simpa using List.mem_takeWhile_imp inside
  · intro c first
    have stopped := List.head?_dropWhile_not (!isBlank ·) text.toList
    rw [first] at stopped
    simpa using stopped
  · rw [ParamDoc.ofLine, String.toList_ofList]

theorem trim_of_mem_valuesOf {key : String} {lines : List TagLine} {value : String}
    (member : value ∈ valuesOf key lines) : trim value.toList = value.toList := by
  obtain ⟨line, _, rfl⟩ := List.mem_map.mp member
  rw [TagLine.value, String.toList_ofList, trim_trim]

theorem noBreak_of_mem_valuesOf {key : String} {lines : List TagLine} {value : String}
    (member : value ∈ valuesOf key lines) : '\n' ∉ value.toList := by
  obtain ⟨line, _, rfl⟩ := List.mem_map.mp member
  rw [TagLine.value, String.toList_ofList]
  intro inside
  obtain ⟨c, _, broken⟩ := List.mem_map.mp (mem_of_mem_trim inside)
  split at broken
  · cases broken
  · next other => exact other broken

theorem isEmpty_toList (text : String) : text.toList.isEmpty = text.isEmpty := by
  apply Bool.eq_iff_iff.mpr
  rw [List.isEmpty_iff, String.isEmpty_iff, String.toList_eq_nil_iff]

theorem filter_filled_dropWhile (values : List String) :
    (values.dropWhile (·.isEmpty)).filter (!·.isEmpty) = values.filter (!·.isEmpty) := by
  induction values with
  | nil => rfl
  | cons value rest ih =>
      by_cases empty : value.isEmpty
      · simp [empty, ih]
      · simp [empty]

/-- No value holds a line break, so each one that is not empty is a piece of the joined text. -/
theorem paramDocs_joined {values : List String}
    (trimmed : ∀ value ∈ values, trim value.toList = value.toList)
    (single : ∀ value ∈ values, '\n' ∉ value.toList) :
    paramDocs (joined values) =
      (values.filter (!·.isEmpty)).map fun value => ParamDoc.ofLine value.toList := by
  rw [← filter_filled_dropWhile, paramDocs, toList_joined]
  have among := (List.dropWhile_sublist (l := values) (·.isEmpty)).subset
  generalize values.dropWhile (·.isEmpty) = kept at among ⊢
  by_cases none : kept = []
  · rw [none]
    rfl
  · have noBreaks : ∀ line ∈ kept.map String.toList, '\n' ∉ line := by
      intro line member
      obtain ⟨value, held, rfl⟩ := List.mem_map.mp member
      exact single value (among held)
    have pieces := splitOn_unlines (mt List.map_eq_nil_iff.mp none) noBreaks
    have same : (kept.map String.toList).map trim = kept.map String.toList := by
      rw [List.map_map]
      exact List.map_congr_left fun value held => trimmed value (among held)
    have filled : ((!·.isEmpty) ∘ String.toList) = fun value => !value.isEmpty := by
      funext value
      exact congrArg not (isEmpty_toList value)
    rw [pieces, same, List.filter_map, List.map_map, filled]
    rfl

theorem params_ofText (full : List Char) :
    (ofText full).params = ((valuesOf "param" (tagLines full)).filter (!·.isEmpty)).map
      fun value => ParamDoc.ofLine value.toList := by
  have entries := @paramDocs_joined (valuesOf "param" (tagLines full))
    (fun _ => trim_of_mem_valuesOf) fun _ => noBreak_of_mem_valuesOf
  rw [← entries, ofText, find?_tags, joined?]
  by_cases none : valuesOf "param" (tagLines full) = []
  · rw [none]
    rfl
  · simp [none]

theorem eq_ofText_of_found {region : List Line} {found : FoundComment}
    (there : ofDefinition? region = some found) : found = ofText found.comment.full.toList := by
  rw [ofDefinition?] at there
  split at there
  · cases there
  · cases there
    exact congrArg ofText String.toList_ofList.symm

/-- The comment of a definition has one entry for each `@param` section that is not empty, in
order, and its record has the text of every other tag. -/
theorem found_loses_no_tag {region : List Line} {found : FoundComment}
    (there : ofDefinition? region = some found) :
    List.Forall₂ ParamDoc.IsCutFrom found.params
      ((valuesOf "param" (tagLines found.comment.full.toList)).filter (!·.isEmpty)) ∧
    found.comment.natspec.params = found.params.map ParamDoc.name ∧
    found.comment.natspec.Records (tags found.comment.full.toList) := by
  have whole := eq_ofText_of_found there
  generalize found.comment.full.toList = full at whole ⊢
  subst whole
  refine ⟨?_, rfl, ?_⟩
  · rw [params_ofText]
    exact List.forall₂_map_left_iff.mpr (List.forall₂_same.mpr fun text _ => isCutFrom_ofLine text)
  · exact records_natspec (tags full) (ofText full).params

def tallyTexts : List Line :=
  ["@param id the", "poll", "@param", "@author the council", "@param votes",
    "@notice Counts."].map String.toList

def tallyLines : List Line :=
  ["/**", " * @param id the", " *   poll", " * @param", " * @author the council",
    " * @param votes", " * @notice Counts.", " */"].map String.toList

theorem tally_loses_no_tag :
    ∃ found, ofDefinition? tallyLines = some found ∧
      List.Forall₂ ParamDoc.IsCutFrom found.params ["id the poll", "votes"] ∧
      found.comment.natspec.params = ["id", "votes"] ∧
      found.comment.natspec.Records (tags found.comment.full.toList) ∧
      found.comment.natspec.other.find? "author" = some "the council" := by
  have cleaned : clean tallyLines = tallyTexts := by decide
  have there : ofDefinition? tallyLines = some (ofText (unlines tallyTexts)) := by
    rw [ofDefinition?, cleaned]
    rfl
  obtain ⟨cut, _, records⟩ := found_loses_no_tag there
  have full : (ofText (unlines tallyTexts)).comment.full.toList = unlines tallyTexts :=
    String.toList_ofList
  have values : (valuesOf "param" (tagLines (unlines tallyTexts))).filter (!·.isEmpty) =
      ["id the poll", "votes"] := by decide +kernel
  rw [full, values] at cut
  exact ⟨_, there, cut, by decide +kernel, records, by decide +kernel⟩

end Comment
end ContractTables
