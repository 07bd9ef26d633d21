import ContractTables.Proofs.Comment.Passes
import ContractTables.Proofs.Document

/-!
Whose `@param` entry describes a parameter. Definitions that share name and contract
write into the same parameter, the first of its name, and the last of them that has an
entry for it decides. So a parameter is described by the comment of its own definition
unless a later definition of the same names speaks about it, or it is hidden behind an
earlier parameter of the same names.
-/
namespace ContractTables

open Text

namespace Comment

section Places

variable (lines : List Line) (definitions : List Definition)

def HasDoc (place : Nat) (name text : String) : Prop :=
  ∃ doc ∈ docsAt lines definitions place, doc.name = name ∧ doc.description = text

/-- Of the definitions to which a declaration belongs, the one at `place` is the last with
an entry for it, and `doc` is its last entry. -/
structure Decides (declaration : Declaration) (place : Nat) (doc : ParamDoc) : Prop where
  owner : ∃ definition, definitions[place]? = some definition ∧ declaration.belongsTo definition
  last : ((docsAt lines definitions place).filter (declaration.name = ·.name)).getLast? = some doc
  silent : ∀ (later : Nat) (definition : Definition), place < later →
    definitions[later]? = some definition → declaration.belongsTo definition →
    ∀ other ∈ docsAt lines definitions later, other.name ≠ declaration.name

end Places

variable {lines : List Line} {definitions : List Definition} {declaration : Declaration}

theorem mem_docs_of_decides {place : Nat} {doc : ParamDoc}
    (decides : Decides lines definitions declaration place doc) :
    doc ∈ docsAt lines definitions place ∧ doc.name = declaration.name := by
  have member := List.mem_of_getLast? decides.last
  simp only [List.mem_filter, decide_eq_true_eq] at member
  exact ⟨member.1, member.2.symm⟩

theorem decides_unique {first second : Nat} {doc other : ParamDoc}
    (one : Decides lines definitions declaration first doc)
    (two : Decides lines definitions declaration second other) :
    first = second ∧ doc = other := by
  obtain ⟨inFirst, named⟩ := mem_docs_of_decides one
  obtain ⟨inSecond, alsoNamed⟩ := mem_docs_of_decides two
  obtain ⟨firstOwner, firstStands, firstBelongs⟩ := one.owner
  obtain ⟨secondOwner, secondStands, secondBelongs⟩ := two.owner
  rcases Nat.lt_trichotomy first second with before | same | after
  · exact absurd alsoNamed (one.silent second _ before secondStands secondBelongs other inSecond)
  · subst second
    exact ⟨rfl, Option.some.inj (one.last.symm.trans two.last)⟩
  · exact absurd named (two.silent first _ after firstStands firstBelongs doc inFirst)

/-- The last element of joined lists comes from the last list that has any. -/
theorem exists_part_of_getLast?_flatMap {α β : Type} {parts : List α} {f : α → List β} {x : β}
    (last : (parts.flatMap f).getLast? = some x) :
    ∃ (i : Nat) (part : α), parts[i]? = some part ∧ (f part).getLast? = some x ∧
      ∀ (j : Nat) (later : α), i < j → parts[j]? = some later → f later = [] := by
  induction parts with
  | nil => simp at last
  | cons first rest ih =>
      rw [List.flatMap_cons, List.getLast?_append] at last
      -- The first list counts only if all lists after it are empty.
      cases tail : (rest.flatMap f).getLast? with
      | some y =>
          have same : y = x := by simpa [tail] using last
          obtain ⟨i, part, stands, ends, silent⟩ := ih (tail.trans (congrArg some same))
          refine ⟨i + 1, part, stands, ends, fun j later beyond there => ?_⟩
          cases j with
          | zero => omega
          | succ j => exact silent j later (by omega) there
      | none =>
          have empty : ∀ later ∈ rest, f later = [] :=
            List.flatMap_eq_nil_iff.mp (List.getLast?_eq_none_iff.mp tail)
          refine ⟨0, first, rfl, by simpa [tail] using last, fun j later beyond there => ?_⟩
          cases j with
          | zero => omega
          | succ j => exact empty later (List.mem_of_getElem? there)

theorem getElem?_zip_foundAbove (lines : List Line) {place : Nat} {definition : Definition}
    (stands : definitions[place]? = some definition) :
    (definitions.zip (foundAbove lines definitions))[place]? =
      some (definition, foundAt lines definitions place) := by
  have inside : place < (foundAbove lines definitions).length := by
    rw [length_foundAbove]
    exact (List.getElem?_eq_some_iff.mp stands).1
  have found := List.getElem?_eq_getElem inside
  refine List.getElem?_zip_eq_some.mpr ⟨stands, ?_⟩
  rw [foundAt, found]
  rfl

theorem filter_listed (owner : Definition) (found : Option FoundComment) :
    (Entry.listed owner found).filter (·.concerns declaration) =
      if declaration.belongsTo owner then
        (((found.map FoundComment.params).getD []).filter (declaration.name = ·.name)).map
          fun doc => ⟨owner, doc⟩
      else [] := by
  rw [Entry.listed, List.filter_map]
  by_cases belongs : declaration.belongsTo owner
  · simp [Entry.concerns, Function.comp_def, belongs]
  · simp [Entry.concerns, Function.comp_def, belongs]

theorem exists_decides_of_lastFor? {entry : Entry}
    (last : lastFor? (entries lines definitions) declaration = some entry) :
    ∃ place, Decides lines definitions declaration place entry.doc := by
  rw [lastFor?, entries, List.filter_flatMap] at last
  obtain ⟨place, ⟨owner, found⟩, stands, ends, silent⟩ := exists_part_of_getLast?_flatMap last
  have standing := List.getElem?_zip_eq_some.mp stands
  have same : foundAt lines definitions place = found := by
    have there : (definitions.zip (foundAbove lines definitions))[place]? =
        some (owner, foundAt lines definitions place) := getElem?_zip_foundAbove lines standing.1
    simpa [there] using stands
  simp only [filter_listed, ← same] at ends
  by_cases belongs : declaration.belongsTo owner
  · rw [if_pos belongs, List.getLast?_map] at ends
    obtain ⟨doc, final, rfl⟩ := Option.map_eq_some_iff.mp ends
    refine ⟨place, ⟨owner, standing.1, belongs⟩, final, ?_⟩
    -- Definitions after `place` add nothing, so those to which it belongs are silent.
    intro later other beyond there alsoBelongs doc' member named
    have nothing := silent later _ beyond (getElem?_zip_foundAbove lines there)
    rw [filter_listed, if_pos alsoBelongs, List.map_eq_nil_iff] at nothing
    exact List.filter_eq_nil_iff.mp nothing doc' member (by simp [named])
  · simp [belongs] at ends

theorem lastFor?_ne_none_of_decides {place : Nat} {doc : ParamDoc}
    (decides : Decides lines definitions declaration place doc) :
    lastFor? (entries lines definitions) declaration ≠ none := by
  obtain ⟨inDocs, named⟩ := mem_docs_of_decides decides
  obtain ⟨owner, stands, belongs⟩ := decides.owner
  have listed : (⟨owner, doc⟩ : Entry) ∈ entries lines definitions := by
    apply List.mem_flatMap.mpr
    exact ⟨_, List.mem_of_getElem? (getElem?_zip_foundAbove lines stands),
      List.mem_map.mpr ⟨doc, inDocs, rfl⟩⟩
  intro absent
  have nothing := List.filter_eq_nil_iff.mp (List.getLast?_eq_none_iff.mp absent)
  exact nothing _ listed (by simp [Entry.concerns, belongs, named])

/-- What the pass over the definitions leaves in the description of a parameter. -/
theorem description_attachToObjects {tables : Tables} (bare : tables.Bare) {i : Nat}
    {row : ParameterRow} (here : (attachToObjects lines tables).parameters[i]? = some row) :
    tables.declarations[i]? = some row.declaration ∧
      row.comment.description =
        if (tables.declarations.take i).any (·.sharesNames row.declaration) then ""
        else ((lastFor? (entries lines tables.definitions) row.declaration).map
          (·.doc.description)).getD "" := by
  rw [attachToObjects_parameters, List.getElem?_zipWith_eq_some] at here
  obtain ⟨source, doc, there, dealt, rfl⟩ := here
  have standing : tables.declarations[i]? = some source.declaration := by
    simp [Tables.declarations, there]
  refine ⟨standing, ?_⟩
  rw [getElem?_deal, standing, Option.map_some, Option.some.injEq] at dealt
  have empty := bare.parameters source (List.mem_of_getElem? there)
  rw [declaration_describeWith, describeWith, empty, ← dealt]
  by_cases hidden : (tables.declarations.take i).any (·.sharesNames source.declaration)
  · simp [hidden, DeclarationComment.described]
  · simp only [hidden, Bool.false_eq_true, ↓reduceIte]
    cases lastFor? (entries lines tables.definitions) source.declaration <;> rfl

/-- A parameter that is not hidden behind an earlier one of its names is described by the
definition that decides, if there is one. -/
theorem description_cases {tables : Tables} (bare : tables.Bare) {i : Nat}
    {row : ParameterRow} (here : (attachToObjects lines tables).parameters[i]? = some row) :
    ((tables.declarations.take i).any (·.sharesNames row.declaration) ∧
        row.comment.description = "") ∨
      ((tables.declarations.take i).any (·.sharesNames row.declaration) = false ∧
        ((row.comment.description = "" ∧
            ∀ other doc, ¬ Decides lines tables.definitions row.declaration other doc) ∨
          ∃ other doc, Decides lines tables.definitions row.declaration other doc ∧
            row.comment.description = doc.description)) := by
  obtain ⟨_, described⟩ := description_attachToObjects bare here
  by_cases hidden : (tables.declarations.take i).any (·.sharesNames row.declaration)
  · exact .inl ⟨hidden, by rw [described, if_pos hidden]⟩
  · rw [if_neg hidden] at described
    refine .inr ⟨Bool.not_eq_true _ ▸ hidden, ?_⟩
    cases last : lastFor? (entries lines tables.definitions) row.declaration with
    | none =>
        rw [last] at described
        refine .inl ⟨described, ?_⟩
        intro other doc decides
        exact lastFor?_ne_none_of_decides decides last
    | some entry =>
        rw [last] at described
        obtain ⟨other, decides⟩ := exists_decides_of_lastFor? last
        exact .inr ⟨other, entry.doc, decides, described⟩

/-- The definition at `place` declares the declaration at `i`, and no other definition of
the same names has a word on it that counts: the declaration is hidden behind an earlier
one, or its own definition decides, or what another one decides is empty or said by its
own definition as well. -/
def Undisputed (lines : List Line) (tables : Tables) (i : Nat) (declaration : Declaration)
    (place : Nat) : Prop :=
  (tables.declarations.take i).any (·.sharesNames declaration) ∨
    ∀ other doc, Decides lines tables.definitions declaration other doc →
      other = place ∨ doc.description = "" ∨
        HasDoc lines tables.definitions place declaration.name doc.description

theorem hasDoc_iff_undisputed {tables : Tables} (bare : tables.Bare) {i : Nat}
    {row : ParameterRow} (here : (attachToObjects lines tables).parameters[i]? = some row)
    (place : Nat) :
    (row.comment.description ≠ "" →
      HasDoc lines tables.definitions place row.declaration.name row.comment.description) ↔
      Undisputed lines tables i row.declaration place := by
  rcases description_cases bare here with
    ⟨hidden, empty⟩ | ⟨first, ⟨empty, silent⟩ | ⟨other, doc, decides, text⟩⟩
  · simp [Undisputed, hidden, empty]
  · constructor
    · intro _
      exact .inr fun other doc decides => absurd decides (silent other doc)
    · intro _ filled
      exact absurd empty filled
  · rw [text]
    constructor
    · intro own
      refine .inr fun another also decidesToo => ?_
      obtain ⟨_, rfl⟩ := decides_unique decides decidesToo
      by_cases empty : doc.description = ""
      · exact .inr (.inl empty)
      · exact .inr (.inr (own empty))
    · rintro (hidden | undisputed) filled
      · simp [first] at hidden
      · rcases undisputed other doc decides with same | empty | said
        · obtain ⟨member, named⟩ := mem_docs_of_decides decides
          exact ⟨doc, same ▸ member, named, rfl⟩
        · exact absurd empty filled
        · exact said

theorem exists_decides_of_description {tables : Tables} (bare : tables.Bare) {i : Nat}
    {row : ParameterRow} (here : (attachToObjects lines tables).parameters[i]? = some row)
    (filled : row.comment.description ≠ "") :
    ∃ other doc, Decides lines tables.definitions row.declaration other doc ∧
      doc.description = row.comment.description := by
  rcases description_cases bare here with
    ⟨_, empty⟩ | ⟨_, ⟨empty, _⟩ | ⟨other, doc, decides, text⟩⟩
  · exact absurd empty filled
  · exact absurd empty filled
  · exact ⟨other, doc, decides, text.symm⟩

/-- A description always is the entry of the definition that decides. It is an entry of the
very definition that declares the parameter exactly if the parameter is undisputed. -/
theorem description_from_own_definition_iff {root : Node} {ignored : List String}
    {lines : List Line} {tables : Tables} (extracted : Tables.extract root ignored = .ok tables)
    {i : Nat} {row : ParameterRow}
    (here : (attachToObjects lines tables).parameters[i]? = some row) :
    ∃ place owner, (Item.owned root ignored)[i]? = some (place, row.declaration) ∧
      tables.definitions[place]? = some owner ∧ row.declaration.belongsTo owner ∧
      (row.comment.description ≠ "" →
        ∃ other doc, Decides lines tables.definitions row.declaration other doc ∧
          doc.description = row.comment.description) ∧
      ((row.comment.description ≠ "" →
        HasDoc lines tables.definitions place row.declaration.name row.comment.description) ↔
        Undisputed lines tables i row.declaration place) := by
  have bare := Tables.bare_extract extracted
  obtain ⟨standing, _⟩ := description_attachToObjects bare here
  obtain ⟨place, owner, declared, stands, belongs⟩ :=
    Tables.exists_owner_of_extract extracted standing
  exact ⟨place, owner, declared, stands, belongs, exists_decides_of_description bare here,
    hasDoc_iff_undisputed bare here place⟩

def overloads : Node :=
  Document.ofContracts
    [Document.contract "Box" 1 5
      [Document.function "store" 2 ["x"], Document.function "store" 4 ["x", "y"]]]

def overloadLines : List Line :=
  ["interface Box", "  function store(uint x);", "  /// @param x the value",
    "  function store(uint x, uint y);", ""].map String.toList

theorem description_of_overloads :
    ∃ tables row, Tables.extract overloads [] = .ok tables ∧
      (attachToObjects overloadLines tables).parameters[0]? = some row ∧
      ∃ place owner, (Item.owned overloads [])[0]? = some (place, row.declaration) ∧
        tables.definitions[place]? = some owner ∧ row.declaration.belongsTo owner ∧
        (row.comment.description ≠ "" →
          ∃ other doc, Decides overloadLines tables.definitions row.declaration other doc ∧
            doc.description = row.comment.description) ∧
        ((row.comment.description ≠ "" →
          HasDoc overloadLines tables.definitions place row.declaration.name
            row.comment.description) ↔
          Undisputed overloadLines tables 0 row.declaration place) :=
  ⟨_, _, rfl, rfl, description_from_own_definition_iff rfl rfl⟩

/-- The first function takes the entry that stands above the second. -/
theorem described_by_another_definition :
    ¬ ∀ (root : Node) (ignored : List String) (lines : List Line) (tables : Tables),
      Tables.extract root ignored = .ok tables →
      ∀ (i place : Nat) (row : ParameterRow),
        (Item.owned root ignored)[i]? = some (place, row.declaration) →
        (attachToObjects lines tables).parameters[i]? = some row →
        row.comment.description ≠ "" →
        HasDoc lines tables.definitions place row.declaration.name row.comment.description := by
  intro all
  obtain ⟨doc, member, _⟩ := all overloads [] overloadLines _ rfl 0 1
    { declaration := ⟨"x", "store", "Box", "uint256", "uint", none, 2, ""⟩,
      comment := { description := "the value" } } rfl rfl (by decide)
  cases member

end Comment
end ContractTables
