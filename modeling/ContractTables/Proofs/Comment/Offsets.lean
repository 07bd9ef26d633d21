import ContractTables.Comment.Annotation
import ContractTables.Proofs.Comment.TagMarks
import ContractTables.Proofs.Text.Marks

/-!
The comment passes by indexes and offsets. Regions are parts of the source lines, blocks and
inline comments are slices between the places of their marks, and definitions are visited by
their index. No access is out of range, for any tables and any lines, and what is found is
what the passes find that handle no offsets.
-/
namespace ContractTables

open Text

namespace Comment

def uncovered (kept : List Line) (interior : Option (List Char)) : List Line :=
  let found := match interior with
    | some interior => (interior.splitOn '\n').map dropBullet
    | none => (kept.reverse.takeWhile isLineComment).reverse.map dropSlashes
  found.filter (!·.isEmpty)

theorem clean_eq (lines : List Line) :
    clean lines = uncovered (nonblank lines) (blockInterior? (unlines (nonblank lines))) := rfl

def ofTags (full : List Char) (tags : Dictionary String) : FoundComment :=
  let params := ((tags.find? "param").map paramDocs).getD []
  { comment := { full := String.ofList full, description := description tags full,
                 natspec := natspec tags params }
    params }

theorem ofText_eq (full : List Char) : ofText full = ofTags full (tags full) := rfl

end Comment

namespace Checked

def window (lines : List Line) (first last : Nat) : Except OutOfRange (List Line) :=
  let last := min last lines.length
  part lines (min first last) last

theorem window_eq (lines : List Line) (first last : Nat) :
    window lines first last = .ok (Comment.window lines first last) := by
  have inside : min first (min last lines.length) ≤ min last lines.length ∧
      min last lines.length ≤ lines.length := ⟨Nat.min_le_right _ _, Nat.min_le_right _ _⟩
  rw [window, part, if_pos inside, Comment.window, ← List.take_eq_take_min]
  congr 1
  rcases Nat.le_total first (min last lines.length) with before | behind
  · rw [Nat.min_eq_left before]
  · rw [Nat.min_eq_right behind, List.drop_of_length_le, List.drop_of_length_le]
    · rw [List.length_take]
      exact behind
    · rw [List.length_take]

def blockInterior (text : List Char) : Except OutOfRange (Option (List Char)) :=
  match dropEndMark? "*/".toList text with
  | none => .ok none
  | some stripped => do
      let last := byteLength stripped
      let body ← slice text 0 last
      match findLast? "/**".toList body with
      | none => .ok none
      | some opening =>
          let interior ← slice text (opening + 3) last
          .ok (if interior.isEmpty then none else some interior)

theorem blockInterior_eq (text : List Char) :
    blockInterior text = .ok (Comment.blockInterior? text) := by
  rw [blockInterior, Comment.blockInterior?]
  cases stripped : dropEndMark? "*/".toList text with
  | none => rfl
  | some body =>
      have closed := dropEndMark?_eq_some_iff.mp stripped
      have whole : slice text 0 (byteLength body) = .ok body :=
        slice_eq_ok_iff.mpr ⟨[], "*/".toList, closed, byteLength_nil, rfl⟩
      simp only [whole, bind, Except.bind, Option.bind]
      rw [findLast?]
      cases cut : cutLast? "/**".toList body with
      | none => rfl
      | some found =>
          obtain ⟨before, interior⟩ := found
          have opened := cutLast?_eq_append cut
          have inner : slice text (byteLength before + 3) (byteLength body) = .ok interior := by
            refine slice_eq_ok_iff.mpr
              ⟨before ++ "/**".toList, "*/".toList, ?_, byteLength_append _ _, ?_⟩
            · rw [closed, opened]
            · rw [opened]
          simp only [Option.map_some, inner]

def clean (lines : List Line) : Except OutOfRange (List Line) := do
  let kept := Comment.nonblank lines
  let interior ← blockInterior (unlines kept)
  .ok (Comment.uncovered kept interior)

theorem clean_eq (lines : List Line) : clean lines = .ok (Comment.clean lines) := by
  rw [clean, blockInterior_eq]
  rfl

def besideCode (line : Line) : Except OutOfRange Line :=
  match find? "//".toList line with
  | none => .ok []
  | some place => do
      let comment ← slice line place (byteLength line)
      .ok (Comment.dropSlashes comment)

theorem besideCode_eq (line : Line) : besideCode line = .ok (Comment.besideCode line) := by
  rw [besideCode, Comment.besideCode, find?]
  cases cut : cutFirst? "//".toList line with
  | none => rfl
  | some found =>
      obtain ⟨before, after⟩ := found
      have opened : line = before ++ ("//".toList ++ after) := by
        rw [cutFirst?_eq_append cut, List.append_assoc]
      have sliced : slice line (byteLength before) (byteLength line) =
          .ok ("//".toList ++ after) :=
        slice_eq_ok_iff.mpr ⟨before, [], by rw [List.append_nil, ← opened], rfl, by rw [← opened]⟩
      simp only [Option.map_some, sliced]
      rfl

def cleanDeclaration (lines : List Line) : Except OutOfRange (List Line × Line) :=
  match lines.getLast? with
  | none => .ok ([], [])
  | some last => do
      let above ← clean lines.dropLast
      let beside ← besideCode last
      .ok (above, beside)

theorem cleanDeclaration_eq (lines : List Line) :
    cleanDeclaration lines = .ok (Comment.cleanDeclaration lines) := by
  rw [cleanDeclaration, Comment.cleanDeclaration]
  cases lines.getLast? with
  | none => rfl
  | some last => simp only [clean_eq, besideCode_eq, bind, Except.bind]

def ofDefinition (region : List Line) : Except OutOfRange (Option FoundComment) := do
  let lines ← clean region
  if lines.isEmpty then .ok none
  else do
    let full := unlines lines
    let sections ← sections full
    .ok (some (Comment.ofTags full (sections.foldl Comment.addSection .empty)))

theorem ofDefinition_eq (region : List Line) :
    ofDefinition region = .ok (Comment.ofDefinition? region) := by
  rw [ofDefinition, Comment.ofDefinition?, clean_eq]
  cases cleaned : Comment.clean region with
  | nil => rfl
  | cons line rest =>
      have found := sections_eq (unlines (line :: rest))
      simp only [bind, Except.bind, List.isEmpty_cons, Bool.false_eq_true, if_false, found,
        Comment.ofText_eq, Comment.tags]

def words (lines : List Line) : String := String.ofList ([' '].intercalate lines)

def ofDeclaration (region : List Line) : Except OutOfRange (Option DeclarationComment) := do
  let (above, beside) ← cleanDeclaration region
  let lines := if beside.isEmpty then above else above ++ [beside]
  let full := String.ofList (unlines lines)
  let texts := lines.map Comment.untagged
  if lines.isEmpty then .ok none
  else if beside.isEmpty then .ok (some { full, description := words texts, inline := "" })
  else if texts.dropLast.isEmpty then do
    let only ← item lines 0
    .ok (some { full, description := String.ofList only, inline := String.ofList only })
  else
    let last := String.ofList (texts.getLast?.getD [])
    .ok (some { full, description := words texts.dropLast, inline := last })

theorem ofDeclaration_eq (region : List Line) :
    ofDeclaration region = .ok (Comment.ofDeclaration? region) := by
  rw [ofDeclaration, Comment.ofDeclaration?, cleanDeclaration_eq]
  obtain ⟨above, beside⟩ := Comment.cleanDeclaration region
  cases beside with
  | nil =>
      cases above with
      | nil => rfl
      | cons line above => rfl
  | cons c beside =>
      cases above with
      | nil => simp [bind, Except.bind, item, unlines]
      | cons line above =>
          simp only [bind, Except.bind, List.isEmpty_cons, Bool.false_eq_true, if_false,
            List.map_append, List.map_cons, List.map_nil, List.dropLast_concat,
            List.getLast?_concat]
          rfl

def attachAt (lines : List Line) (state : LineSpan × Tables) (place : Nat) :
    Except OutOfRange (LineSpan × Tables) := do
  let (previous, tables) := state
  let row ← item tables.objects place
  let span := row.definition.span
  let last ← minusOrZero span.first 1
  let region ← window lines (if previous.last ≤ last then previous.last else previous.first) last
  match ← ofDefinition region with
  | none => .ok (span, tables)
  | some found => do
      let objects ← rewrite tables.objects place fun row => { row with comment := found.comment }
      let object ← item objects place
      .ok (span, { tables with
        objects
        parameters := Comment.describeAll tables.parameters object.definition (some found) })

def attachToObjects (lines : List Line) (tables : Tables) : Except OutOfRange Tables := do
  let (_, attached) ← (List.range tables.objects.length).foldlM (attachAt lines) (⟨0, 0⟩, tables)
  .ok attached

def foundFrom (lines : List Line) (previous : LineSpan) (objects : List ObjectRow) :
    List (Option FoundComment) :=
  (Comment.withPrevious previous (objects.map (·.definition.span))).map fun (previous, span) =>
    Comment.ofDefinition? (Comment.definitionWindow lines previous span)

theorem attachAt_eq (lines : List Line) (previous : LineSpan) (visited : List ObjectRow)
    (row : ObjectRow) (rest : List ObjectRow) (parameters : List ParameterRow)
    (diagnostics : List Diagnostic) :
    let found := Comment.ofDefinition?
      (Comment.definitionWindow lines previous row.definition.span)
    attachAt lines (previous, ⟨visited ++ row :: rest, parameters, diagnostics⟩) visited.length =
      .ok (row.definition.span, ⟨visited ++ Comment.setComment row found :: rest,
        Comment.describeAll parameters row.definition found, diagnostics⟩) := by
  intro found
  have region : Comment.ofDefinition? (Comment.window lines
      (if previous.last ≤ row.definition.span.first - 1 then previous.last else previous.first)
      (row.definition.span.first - 1)) = found := rfl
  rw [attachAt]
  simp only [item_append, minusOrZero_eq, window_eq, ofDefinition_eq, region, bind, Except.bind]
  cases found with
  | none => rfl
  | some comment =>
      simp only [rewrite_append, item_append]
      rfl

/-- The definitions that are visited already stay as they are, and each of the others gets
what is found at it. -/
theorem attachAt_run (lines : List Line) (previous : LineSpan) (visited rest : List ObjectRow)
    (parameters : List ParameterRow) (diagnostics : List Diagnostic) :
    ∃ last, (List.range' visited.length rest.length).foldlM (attachAt lines)
        (previous, ⟨visited ++ rest, parameters, diagnostics⟩) =
      .ok (last, ⟨visited ++ rest.zipWith Comment.setComment (foundFrom lines previous rest),
        (rest.zip (foundFrom lines previous rest)).foldl
          (fun rows (object, found) => Comment.describeAll rows object.definition found) parameters,
        diagnostics⟩) := by
  induction rest generalizing previous visited parameters with
  | nil => exact ⟨previous, by simp [pure, Except.pure]⟩
  | cons row rest ih =>
      obtain ⟨last, run⟩ := ih row.definition.span
        (visited ++ [Comment.setComment row (Comment.ofDefinition?
          (Comment.definitionWindow lines previous row.definition.span))])
        (Comment.describeAll parameters row.definition (Comment.ofDefinition?
          (Comment.definitionWindow lines previous row.definition.span)))
      refine ⟨last, ?_⟩
      rw [List.length_append, List.length_singleton, List.append_assoc, List.append_assoc] at run
      rw [List.length_cons, List.range'_succ, List.foldlM_cons, attachAt_eq]
      exact run

theorem attachToObjects_eq (lines : List Line) (tables : Tables) :
    attachToObjects lines tables = .ok (Comment.attachToObjects lines tables) := by
  obtain ⟨last, run⟩ := attachAt_run lines ⟨0, 0⟩ [] tables.objects tables.parameters
    tables.diagnostics
  rw [attachToObjects, List.range_eq_range']
  simp only [List.length_nil, List.nil_append] at run
  rw [run]
  rfl

def attachInline (lines : List Line) (previous : Nat) :
    List ParameterRow → Except OutOfRange (List ParameterRow)
  | [] => .ok []
  | row :: rest => do
      let last := row.declaration.line
      let above ← minusOrZero last 2
      let region ← window lines (min previous above) last
      let found ← ofDeclaration region
      let later ← attachInline lines last rest
      .ok (Comment.fillComment row found :: later)

theorem attachInline_eq (lines : List Line) (previous : Nat) (rows : List ParameterRow) :
    attachInline lines previous rows =
      .ok (rows.zipWith Comment.fillComment
        ((Comment.withPrevious previous (rows.map (·.declaration.line))).map
          fun (previous, line) =>
            Comment.ofDeclaration? (Comment.declarationWindow lines previous line))) := by
  induction rows generalizing previous with
  | nil => rfl
  | cons row rest ih =>
      simp only [attachInline, minusOrZero_eq, window_eq, ofDeclaration_eq, ih, bind, Except.bind]
      rfl

/-- The passes in order; the two after the inline comments look at no lines. -/
def annotate (lines : List Line) (tables : Tables) : Except OutOfRange Tables := do
  let attached ← attachToObjects lines tables
  let parameters ← attachInline lines 0 attached.parameters
  .ok { attached with parameters }.dropRepeated.dropLicences

/-- The comments of any tables are found in any lines without an access out of range. -/
theorem annotate_in_range (lines : List Line) (tables : Tables) :
    annotate lines tables = .ok (tables.annotate lines) := by
  simp only [annotate, attachToObjects_eq, attachInline_eq, bind, Except.bind]
  rfl

end Checked
end ContractTables
