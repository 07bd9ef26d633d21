import ContractTables.Proofs.Comment.Attribution

/-!
What parameters keep of the comment above their definition. The window of a parameter
ends where that of its definition ends, so the same comment is often found twice; it is
blanked where it is equal. Equality is tested on the full texts and on the descriptions,
and these are formed by different rules: the first sentence or a tag for a definition,
all lines without their tags for a parameter.
-/
namespace ContractTables

open Text

/-- A comment found beside a declaration that says no more than the comment of a
definition, as far as the passes can tell. -/
structure DeclarationComment.Repeats (found : DeclarationComment) (parent : DefinitionComment) :
    Prop where
  full : found.full = parent.full ∨ occurs "@param".toList parent.full.toList
  description : found.description = parent.description ∨ found.description = ""

namespace Comment

def lineBefore (declarations : List Declaration) : Nat → Nat
  | 0 => 0
  | i + 1 => (declarations[i]?.map (·.line)).getD 0

def besideAt (lines : List Line) (declarations : List Declaration) (i line : Nat) :
    Option DeclarationComment :=
  ofDeclaration? (declarationWindow lines (lineBefore declarations i) line)

def ofAbove : List Line → Option DeclarationComment
  | [] => none
  | above => some
      { full := String.ofList (unlines above)
        description := String.ofList ([' '].intercalate (above.map untagged)) }

def commentAt (lines : List Line) (definitions : List Definition) (place : Nat) :
    DefinitionComment :=
  ((foundAt lines definitions place).map FoundComment.comment).getD
    { natspec := { other := .empty } }

/-- The definition that the passes take for the one that declares a declaration. -/
structure FirstOwner (definitions : List Definition) (declaration : Declaration)
    (place : Nat) : Prop where
  owner : ∃ definition, definitions[place]? = some definition ∧ declaration.belongsTo definition
  first : ∀ (earlier : Nat) (definition : Definition), earlier < place →
    definitions[earlier]? = some definition → declaration.belongsTo definition = false

theorem getElem?_foundBeside {lines : List Line} {declarations : List Declaration} {i : Nat}
    {declaration : Declaration} (here : declarations[i]? = some declaration) :
    (foundBeside lines declarations)[i]? =
      some (besideAt lines declarations i declaration.line) := by
  have line : (declarations.map (·.line))[i]? = some declaration.line := by
    rw [List.getElem?_map, here]
    rfl
  have before : (0 :: declarations.map (·.line))[i]?.getD 0 = lineBefore declarations i := by
    cases i with
    | zero => rfl
    | succ i => simp [lineBefore]
  rw [foundBeside, List.getElem?_map, getElem?_withPrevious 0 line, before]
  rfl

theorem window_succ {lines : List Line} {first n : Nat} {line : Line}
    (stands : lines[n]? = some line) (below : first ≤ n) :
    window lines first (n + 1) = window lines first n ++ [line] := by
  have inside := (List.getElem?_eq_some_iff.mp stands).1
  have long : first ≤ (lines.take n).length := by
    rw [List.length_take]
    omega
  rw [window, List.take_add_one, stands, List.drop_append_of_le_length long]
  rfl

/-- A line without `//` leaves the comment above it, whatever else the line holds. -/
theorem besideAt_of_plain {lines : List Line} {line : Line} {n : Nat}
    (declarations : List Declaration) (i : Nat) (stands : lines[n]? = some line)
    (plain : occurs "//".toList line = false) :
    besideAt lines declarations i (n + 1) =
      ofAbove (clean (window lines (min (lineBefore declarations i) (n - 1)) n)) := by
  have below : min (lineBefore declarations i) (n - 1) ≤ n := by omega
  -- The last line of the window is the line of the declaration itself.
  have own : declarationWindow lines (lineBefore declarations i) (n + 1) =
      window lines (min (lineBefore declarations i) (n - 1)) n ++ [line] :=
    window_succ stands below
  have none_beside : besideCode line = [] := by
    rw [besideCode, cutFirst?_eq_none_iff.mpr plain]
  rw [besideAt, own, ofDeclaration?, cleanDeclaration_concat, none_beside]
  cases clean (window lines (min (lineBefore declarations i) (n - 1)) n) <;> rfl

theorem not_mem_clean_nil (region : List Line) : [] ∉ clean region := by
  simp [clean]

theorem unlines_ne_nil {first : Line} (rest : List Line) (filled : first ≠ []) :
    unlines (first :: rest) ≠ [] := by
  cases rest with
  | nil => simpa [unlines] using filled
  | cons next later => simp [unlines, List.intercalate_cons_cons, filled]

/-- A comment that is found has some text. -/
theorem full_ne_empty_of_found {region : List Line} {found : DeclarationComment}
    (there : ofDeclaration? region = some found) : found.full ≠ "" := by
  have filled : [] ∉ (cleanDeclaration region).1 := by
    rw [cleanDeclaration]
    split
    · simp
    · exact not_mem_clean_nil _
  rw [ofDeclaration?] at there
  cases above : (cleanDeclaration region).1 with
  | nil =>
      -- Nothing above: the text is what stands beside the declaration.
      cases beside : (cleanDeclaration region).2 with
      | nil => simp [above, beside] at there
      | cons c text =>
          simp only [above, beside, Option.some.injEq] at there
          simp [← there]
  | cons first rest =>
      rw [above] at filled
      have filledFirst : first ≠ [] := fun empty => filled (empty ▸ List.mem_cons_self)
      cases beside : (cleanDeclaration region).2 with
      | nil =>
          simp only [above, beside, Option.some.injEq] at there
          simp [← there, unlines_ne_nil rest filledFirst]
      | cons c text =>
          simp only [above, beside, Option.some.injEq] at there
          simp [← there, unlines_ne_nil (rest ++ [c :: text]) filledFirst]

end Comment

open Comment in
theorem DeclarationComment.settled_blank_iff {found : Option DeclarationComment}
    {parent : DefinitionComment} (filled : ∀ comment, found = some comment → comment.full ≠ "") :
    ((settled {} none found (some parent)).description = "" ∧
      (settled {} none found (some parent)).full = "") ↔
      ∀ comment, found = some comment → comment.Repeats parent := by
  cases found with
  | none => simp [settled, described, DeclarationComment.filled, unrepeated, blankIf]
  | some comment =>
      have some_text := filled comment rfl
      have full : (settled {} none (some comment) (some parent)).full =
          blankIf (comment.full = parent.full || occurs "@param".toList parent.full.toList)
            comment.full := rfl
      have description : (settled {} none (some comment) (some parent)).description =
          blankIf (comment.description = parent.description) comment.description := rfl
      simp only [full, description, blankIf_eq_empty_iff, some_text, or_false, Bool.or_eq_true,
        decide_eq_true_eq, Option.some.injEq, forall_eq']
      constructor
      · intro blank
        exact ⟨blank.2, blank.1⟩
      · intro repeats
        exact ⟨repeats.description, repeats.full⟩

namespace Comment

theorem exists_firstOwner {definitions : List Definition} {declaration : Declaration}
    {place : Nat} {owner : Definition} (stands : definitions[place]? = some owner)
    (belongs : declaration.belongsTo owner) :
    ∃ first, FirstOwner definitions declaration first := by
  cases found : definitions.find? (declaration.belongsTo ·) with
  | none =>
      exact absurd belongs (List.find?_eq_none.mp found owner (List.mem_of_getElem? stands))
  | some definition =>
      obtain ⟨holds, first, inside, rfl, least⟩ := List.find?_eq_some_iff_getElem.mp found
      refine ⟨first, ⟨_, List.getElem?_eq_getElem inside, holds⟩, ?_⟩
      intro earlier other before there
      obtain ⟨_, rfl⟩ := List.getElem?_eq_some_iff.mp there
      simpa using least earlier before

theorem getElem?_commented (lines : List Line) {tables : Tables} (bare : tables.Bare)
    {place : Nat} {definition : Definition}
    (stands : tables.definitions[place]? = some definition) :
    ∃ row, (commented lines tables)[place]? = some row ∧ row.definition = definition ∧
      row.comment = commentAt lines tables.definitions place := by
  rw [Tables.definitions, List.getElem?_map] at stands
  obtain ⟨row, there, rfl⟩ := Option.map_eq_some_iff.mp stands
  have standing : tables.definitions[place]? = some row.definition := by
    simp [Tables.definitions, there]
  have found := (List.getElem?_zip_eq_some.mp (getElem?_zip_foundAbove lines standing)).2
  refine ⟨setComment row (foundAt lines tables.definitions place), ?_,
    definition_setComment row _, ?_⟩
  · exact List.getElem?_zipWith_eq_some.mpr ⟨row, _, there, found, rfl⟩
  · rw [setComment_eq, commentAt, bare.objects row (List.mem_of_getElem? there)]
    rfl

theorem parentComment?_commented (lines : List Line) {tables : Tables} (bare : tables.Bare)
    {declaration : Declaration} {first : Nat}
    (owner : FirstOwner tables.definitions declaration first) :
    parentComment? (commented lines tables) declaration =
      some (commentAt lines tables.definitions first) := by
  obtain ⟨definition, stands, belongs⟩ := owner.owner
  obtain ⟨row, there, rfl, comment⟩ := getElem?_commented lines bare stands
  have found : (commented lines tables).find?
      (fun object => declaration.belongsTo object.definition) = some row := by
    obtain ⟨inside, same⟩ := List.getElem?_eq_some_iff.mp there
    refine List.find?_eq_some_iff_getElem.mpr ⟨belongs, first, inside, same, ?_⟩
    intro earlier before
    have standing : tables.definitions[earlier]? =
        some (commented lines tables)[earlier].definition := by
      rw [← definitions_commented lines, List.getElem?_map, List.getElem?_eq_getElem (by omega)]
      rfl
    simp [owner.first earlier _ before standing]
  rw [parentComment?, found, Option.map_some, comment]

def Undocumented (lines : List Line) (definitions : List Definition)
    (declaration : Declaration) : Prop :=
  ∀ (place : Nat) (owner : Definition), definitions[place]? = some owner →
    declaration.belongsTo owner → ∀ doc ∈ docsAt lines definitions place,
      doc.name ≠ declaration.name

theorem deal_of_undocumented {lines : List Line} {definitions : List Definition}
    {declarations : List Declaration} {i : Nat} {declaration : Declaration}
    (undocumented : Undocumented lines definitions declaration)
    (here : declarations[i]? = some declaration) :
    (deal (entries lines definitions) declarations)[i]? = some none := by
  have nothing : lastFor? (entries lines definitions) declaration = none := by
    cases last : lastFor? (entries lines definitions) declaration with
    | none => rfl
    | some entry =>
        -- Such an entry would come from a definition that decides.
        obtain ⟨place, decides⟩ := exists_decides_of_lastFor? last
        obtain ⟨owner, stands, belongs⟩ := decides.owner
        obtain ⟨member, named⟩ := mem_docs_of_decides decides
        exact absurd named (undocumented place owner stands belongs entry.doc member)
  rw [getElem?_deal, here, Option.map_some, nothing]
  simp

/-- Without an entry, the finished comment comes from the window of the declaration and
the comment of its first definition alone. -/
theorem comment_of_undocumented {lines : List Line} {taxonomy : Taxonomy} {tables : Tables}
    (bare : tables.Bare) {i first : Nat} {row : ParameterRow}
    (here : (Tables.finish lines taxonomy tables).parameters[i]? = some row)
    (undocumented : Undocumented lines tables.definitions row.declaration)
    (owner : FirstOwner tables.definitions row.declaration first) :
    row.comment = DeclarationComment.settled {} none
      (besideAt lines tables.declarations i row.declaration.line)
      (some (commentAt lines tables.definitions first)) := by
  have standing := Tables.getElem?_declarations_of_finish lines taxonomy tables here
  have there := standing
  rw [Tables.declarations, List.getElem?_map] at there
  obtain ⟨source, inTables, same⟩ := Option.map_eq_some_iff.mp there
  obtain ⟨doc, found, dealt, beside, settled⟩ :=
    Tables.getElem?_parameters_annotate lines tables inTables
  have comment : row.comment = source.comment.settled doc found
      (parentComment? (commented lines tables) source.declaration) :=
    congrArg ParameterRow.comment (Option.some.inj (here.symm.trans settled))
  rw [deal_of_undocumented undocumented standing] at dealt
  rw [getElem?_foundBeside standing] at beside
  rw [← same] at owner
  rw [comment, ← Option.some.inj dealt, ← Option.some.inj beside,
    bare.parameters source (List.mem_of_getElem? inTables),
    parentComment?_commented lines bare owner]

/-- A parameter without an entry ends with neither description nor full comment exactly
if the comment in its own window repeats the comment of the first definition of its
names. In a line without `//` that comment is the one right above, if there is any. -/
theorem blank_iff_repeats {settings : Settings} {root : Node} {lines : List Line}
    {tables : Tables} (parsed : Tables.parse settings root lines = .ok tables)
    {i : Nat} {row : ParameterRow} (here : tables.parameters[i]? = some row)
    (undocumented : Undocumented lines tables.definitions row.declaration) :
    ∃ first, FirstOwner tables.definitions row.declaration first ∧
      (row.comment.description = "" ∧ row.comment.full = "" ↔
        ∀ found, besideAt lines tables.declarations i row.declaration.line = some found →
          found.Repeats (commentAt lines tables.definitions first)) ∧
      ∀ n line, row.declaration.line = n + 1 → lines[n]? = some line →
        occurs "//".toList line = false →
        besideAt lines tables.declarations i row.declaration.line =
          ofAbove (clean (window lines (min (lineBefore tables.declarations i) (n - 1)) n)) := by
  obtain ⟨bareTables, extracted, bare, rfl⟩ := Tables.exists_bare_of_parse parsed
  rw [Tables.definitions_finish] at undocumented ⊢
  have standing := Tables.getElem?_declarations_of_finish lines _ bareTables here
  obtain ⟨place, owner, _, stands, belongs⟩ :=
    Tables.exists_owner_of_extract extracted standing
  obtain ⟨first, isFirst⟩ := exists_firstOwner stands belongs
  refine ⟨first, isFirst, ?_, ?_⟩
  · rw [comment_of_undocumented bare here undocumented isFirst, Tables.declarations_finish]
    exact DeclarationComment.settled_blank_iff fun comment found => full_ne_empty_of_found found
  · intro n line at_line there plain
    rw [at_line]
    exact besideAt_of_plain _ i there plain

def transfer : Node :=
  Document.ofContracts [Document.contract "Bank" 1 4 [Document.function "send" 3 ["value"]]]

def transferLines : List Line :=
  ["interface Bank", "  // Sends funds. All of them.", "  function send(uint value);",
    ""].map String.toList

theorem undocumented_transfer (declaration : Declaration) :
    Undocumented transferLines
      (Item.definitionsOf ((Item.contracts transfer).flatMap (Item.ofContract [])))
      declaration := by
  intro place owner stands _ doc member
  match place with
  | 0 => cases member
  | 1 => cases member
  | n + 2 => cases stands

theorem blank_of_transfer :
    ∃ tables row, Tables.parse {} transfer transferLines = .ok tables ∧
      tables.parameters[0]? = some row ∧
      Undocumented transferLines tables.definitions row.declaration ∧
      ∃ first, FirstOwner tables.definitions row.declaration first ∧
        (row.comment.description = "" ∧ row.comment.full = "" ↔
          ∀ found, besideAt transferLines tables.declarations 0 row.declaration.line = some found →
            found.Repeats (commentAt transferLines tables.definitions first)) ∧
        ∀ n line, row.declaration.line = n + 1 → transferLines[n]? = some line →
          occurs "//".toList line = false →
          besideAt transferLines tables.declarations 0 row.declaration.line =
            ofAbove (clean (window transferLines
              (min (lineBefore tables.declarations 0) (n - 1)) n)) := by
  have parsed : Tables.parse {} transfer transferLines = .ok (Tables.finish transferLines
      .governance (Tables.ofItems ((Item.contracts transfer).flatMap
        (Item.ofContract ["SafeMath"])))) := rfl
  exact ⟨_, _, parsed, rfl, undocumented_transfer _,
    blank_iff_repeats parsed rfl (undocumented_transfer _)⟩

/-- The parameter keeps both sentences, of which its function has taken the first only. -/
theorem comment_left_on_parameter :
    ¬ ∀ (settings : Settings) (root : Node) (lines : List Line) (tables : Tables),
      Tables.parse settings root lines = .ok tables →
      ∀ (i place : Nat) (row : ParameterRow) (object : ObjectRow) (line : Line),
        (Item.owned root settings.ignoredContracts)[i]? = some (place, row.declaration) →
        tables.parameters[i]? = some row → tables.objects[place]? = some object →
        object.definition.kind ∈ [.function, .event, .modifier] →
        row.declaration.line = object.definition.span.first →
        lines[row.declaration.line - 1]? = some line → occurs "//".toList line = false →
        Undocumented lines tables.definitions row.declaration →
        row.comment.description = "" ∧ row.comment.full = "" := by
  intro all
  have blank := all {} transfer transferLines _ rfl 0 1
    { declaration := ⟨"value", "send", "Bank", "uint256", "uint", none, 3, ""⟩,
      comment := { description := "Sends funds. All of them." } } _ _ rfl rfl rfl
    (by decide) rfl rfl rfl (undocumented_transfer _)
  exact absurd blank.1 (by decide)

end Comment
end ContractTables
