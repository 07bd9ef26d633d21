import ContractTables.Csv.Tables

/-!
Reading comma-separated records back. The reader takes one character at a time and is
strict: outside quotes it refuses a quote that does not open a field, a carriage return,
and anything but a separator after a closing quote. A more lenient reader therefore gives
the same records wherever this one gives any. The two documents of a project are read
back as their titles and the rows they were written from.
-/
namespace ContractTables.Csv

/-- Where a reader stands. After a quote inside quotes it cannot tell yet whether the
field is closed or the quote is doubled. -/
inductive Position where
  | start
  | bare
  | quoted
  | closing
  deriving DecidableEq

/-- Finished records, finished fields of the record at hand and the text of the field at
hand, each with the latest first. -/
structure Reader where
  records : List (List String) := []
  fields : List String := []
  text : List Char := []
  position : Position := .start
  deriving DecidableEq

namespace Reader

def put (reader : Reader) (position : Position) (c : Char) : Reader :=
  { reader with text := c :: reader.text, position }

def endField (reader : Reader) : Reader :=
  { records := reader.records, fields := String.ofList reader.text.reverse :: reader.fields }

def endRecord (reader : Reader) : Reader :=
  { records := reader.endField.fields.reverse :: reader.records }

def step? (reader : Reader) (c : Char) : Option Reader :=
  match reader.position, c with
  | .quoted, '"' => some { reader with position := .closing }
  | .quoted, c => some (reader.put .quoted c)
  | .closing, '"' => some (reader.put .quoted '"')
  | .start, '"' => some { reader with position := .quoted }
  | _, ',' => some reader.endField
  | _, '\n' => some reader.endRecord
  | .closing, _ | _, '"' | _, '\r' => none
  | _, c => some (reader.put .bare c)

def run? : Reader → List Char → Option Reader
  | reader, [] => some reader
  | reader, c :: rest => (reader.step? c).bind (run? · rest)

end Reader

def read? (text : String) : Option (List (List String)) :=
  match Reader.run? {} text.toList with
  | some ⟨records, [], [], .start⟩ => some records.reverse
  | _ => none

namespace Reader

theorem run?_append (reader : Reader) (first second : List Char) :
    run? reader (first ++ second) = (run? reader first).bind (run? · second) := by
  induction first generalizing reader with
  | nil => rfl
  | cons c rest ih =>
      simp only [List.cons_append, run?, Option.bind_assoc]
      exact congrArg _ (funext fun next => ih next)

theorem step?_separator (reader : Reader) (outside : reader.position ≠ .quoted) :
    reader.step? ',' = some reader.endField ∧ reader.step? '\n' = some reader.endRecord := by
  cases position : reader.position with
  | quoted => exact absurd position outside
  | start => simp [step?, position]
  | bare => simp [step?, position]
  | closing => simp [step?, position]

theorem step?_plain (reader : Reader) (c : Char) (plain : isSpecial c = false)
    (outside : reader.position = .start ∨ reader.position = .bare) :
    reader.step? c = some (reader.put .bare c) := by
  simp only [isSpecial, Bool.or_eq_false_iff, decide_eq_false_iff_not] at plain
  obtain ⟨⟨⟨comma, quote⟩, lineFeed⟩, carriageReturn⟩ := plain
  rcases outside with position | position <;>
    simp [step?, position, quote]

theorem run?_plain (records : List (List String)) (fields : List String)
    (before text : List Char) (position : Position)
    (outside : position = .start ∨ position = .bare)
    (plain : ∀ c ∈ text, isSpecial c = false) :
    ∃ last, last ≠ .quoted ∧ run? ⟨records, fields, before, position⟩ text =
      some ⟨records, fields, text.reverse ++ before, last⟩ := by
  induction text generalizing before position with
  | nil =>
      refine ⟨position, ?_, rfl⟩
      rcases outside with rfl | rfl <;> decide
  | cons c rest ih =>
      obtain ⟨last, outsideLast, read⟩ := ih (c :: before) .bare (.inr rfl)
        fun d member => plain d (List.mem_cons_of_mem c member)
      refine ⟨last, outsideLast, ?_⟩
      rw [run?, step?_plain _ c (plain c List.mem_cons_self) outside]
      simpa [put] using read

/-- Inside quotes a doubled quote is one quote, and everything else is itself. -/
theorem run?_quoted (records : List (List String)) (fields : List String)
    (before text : List Char) :
    run? ⟨records, fields, before, .quoted⟩ (text.flatMap doubleQuote) =
      some ⟨records, fields, text.reverse ++ before, .quoted⟩ := by
  induction text generalizing before with
  | nil => rfl
  | cons c rest ih =>
      have next := ih (c :: before)
      by_cases quote : c = '"'
      · subst c
        simpa [doubleQuote, run?, step?, put] using next
      · simpa [doubleQuote, quote, run?, step?, put] using next

/-- A written field is read up to its end, where only a separator may follow. -/
theorem run?_field (records : List (List String)) (fields : List String) (text : List Char) :
    ∃ last, last ≠ .quoted ∧ run? ⟨records, fields, [], .start⟩ (field text) =
      some ⟨records, fields, text.reverse, last⟩ := by
  by_cases special : text.any isSpecial
  · refine ⟨.closing, by decide, ?_⟩
    rw [field, if_pos special, List.cons_append, run?]
    -- The opening quote, the text, and the quote that closes it.
    have opened : step? ⟨records, fields, [], .start⟩ '"' =
        some ⟨records, fields, [], .quoted⟩ := by simp [step?]
    rw [opened, Option.bind_some, run?_append, run?_quoted]
    simp [run?, step?]
  · have plain : ∀ c ∈ text, isSpecial c = false := by simpa using special
    rw [field, if_neg special]
    simpa using run?_plain records fields [] text .start (.inl rfl) plain

theorem run?_field_comma (records : List (List String)) (fields : List String)
    (text : String) (rest : List Char) :
    run? ⟨records, fields, [], .start⟩ (field text.toList ++ ',' :: rest) =
      run? ⟨records, text :: fields, [], .start⟩ rest := by
  obtain ⟨last, outside, read⟩ := run?_field records fields text.toList
  rw [run?_append, read, Option.bind_some, run?, (step?_separator _ outside).1]
  simp [endField]

theorem run?_field_lineFeed (records : List (List String)) (fields : List String)
    (text : String) (rest : List Char) :
    run? ⟨records, fields, [], .start⟩ (field text.toList ++ '\n' :: rest) =
      run? ⟨(text :: fields).reverse :: records, [], [], .start⟩ rest := by
  obtain ⟨last, outside, read⟩ := run?_field records fields text.toList
  rw [run?_append, read, Option.bind_some, run?, (step?_separator _ outside).2]
  simp [endRecord, endField]

/-- The record at hand already holds `fields`; the induction moves one field across. -/
theorem run?_record (records : List (List String)) (fields : List String) (text : String)
    (texts : List String) (rest : List Char) :
    run? ⟨records, fields, [], .start⟩ (record (text :: texts) ++ rest) =
      run? ⟨(fields.reverse ++ text :: texts) :: records, [], [], .start⟩ rest := by
  induction texts generalizing fields text with
  | nil => simp [record, run?_field_lineFeed]
  | cons next texts ih =>
      have tail := ih (text :: fields) next
      simp only [record, List.map_cons, List.intercalate_cons_cons, List.append_assoc,
        List.cons_append, List.nil_append] at tail ⊢
      rw [run?_field_comma, tail]
      simp

theorem run?_records (done rows : List (List String)) (filled : ∀ row ∈ rows, row ≠ []) :
    run? ⟨done, [], [], .start⟩ (rows.flatMap record) =
      some ⟨rows.reverse ++ done, [], [], .start⟩ := by
  induction rows generalizing done with
  | nil => rfl
  | cons row rows ih =>
      have tail := ih (row :: done) fun other member => filled other (List.mem_cons_of_mem row member)
      -- The step needs a first field, since a record without fields reads as one empty field.
      cases row with
      | nil => exact absurd rfl (filled [] List.mem_cons_self)
      | cons text texts =>
          rw [List.flatMap_cons, run?_record, List.reverse_nil, List.nil_append, tail]
          simp

end Reader

theorem titleLine_eq_record {titles : List String}
    (plain : ∀ title ∈ titles, title.toList.any isSpecial = false) :
    titleLine titles = record titles := by
  have bare : ∀ title ∈ titles, title.toList = field title.toList := by
    intro title member
    rw [field, plain title member]
    rfl
  rw [titleLine, record, List.map_congr_left bare]

/-- A row without fields would be written like a row with one empty field. -/
theorem read?_document (titles : List String) (rows : List (List String))
    (plain : ∀ title ∈ titles, title.toList.any isSpecial = false)
    (filled : ∀ row ∈ titles :: rows, row ≠ []) :
    read? (document titles rows) = some (titles :: rows) := by
  have read := Reader.run?_records [] (titles :: rows) filled
  rw [List.flatMap_cons] at read
  rw [read?, document, String.toList_ofList, titleLine_eq_record plain, read]
  simp

end Csv

/-! The documents of a project. -/

section Records

variable {Row : Type} (rowsOf : Tables → List Row) (fields : String → String → Row → List String)

/-- The records of a project, file by file. -/
def projectRecords (project : String) (files : List LabelledTables) : List (List String) :=
  files.flatMap fun file => (rowsOf file.tables).map (fields project file.label)

theorem read?_projectRecords {titles : List String}
    (plain : ∀ title ∈ titles, title.toList.any Csv.isSpecial = false) (titled : titles ≠ [])
    (sized : ∀ project file row, (fields project file row).length = titles.length)
    (project : String) (files : List LabelledTables) :
    Csv.read? (Csv.document titles (projectRecords rowsOf fields project files)) =
      some (titles :: projectRecords rowsOf fields project files) := by
  apply Csv.read?_document _ _ plain
  intro record member
  rcases List.mem_cons.mp member with rfl | inRows
  · exact titled
  · obtain ⟨file, _, inFile⟩ := List.mem_flatMap.mp inRows
    obtain ⟨row, _, rfl⟩ := List.mem_map.mp inFile
    -- A record is as long as the titles, so it has a first field as they do.
    rw [← List.length_pos_iff, sized, List.length_pos_iff]
    exact titled

end Records

theorem length_objectFields (project file : String) (row : ObjectRow) :
    (objectFields project file row).length = objectTitles.length := rfl

theorem length_parameterFields (project file : String) (row : ParameterRow) :
    (parameterFields project file row).length = parameterTitles.length := rfl

theorem read?_objectsCsv (project : String) (files : List LabelledTables) :
    Csv.read? (objectsCsv project files) =
      some (objectTitles :: projectRecords Tables.objects objectFields project files) :=
  read?_projectRecords Tables.objects objectFields (by decide) (by decide) length_objectFields
    project files

theorem read?_parametersCsv (project : String) (files : List LabelledTables) :
    Csv.read? (parametersCsv project files) =
      some (parameterTitles :: projectRecords Tables.parameters parameterFields project files) :=
  read?_projectRecords Tables.parameters parameterFields (by decide) (by decide)
    length_parameterFields project files

/-- What a table of objects has under a title. -/
def ObjectRow.textUnder? (project file : String) (row : ObjectRow) : String → Option String
  | "project" => some project
  | "file" => some file
  | "object_name" => some row.definition.name
  | "contract" => some row.definition.contract
  | "type" => some row.definition.kind.tag
  | "inheritance" => some (commaList row.definition.bases)
  | "modifiers" => some (commaList row.definition.modifiers)
  | "values" => some (commaList row.definition.values)
  | "visibility" => some row.definition.visibility
  | "description" => some row.comment.description
  | "full_comment" => some row.comment.full
  | "title" => some row.comment.natspec.title
  | "notice" => some row.comment.natspec.notice
  | "dev" => some row.comment.natspec.dev
  | "param" => some (commaList row.comment.natspec.params)
  | "return" => some row.comment.natspec.returns
  | "coding_keyword_search" => some (commaList row.codes.keywords)
  | "coding_topic_search" => some (commaList row.codes.topics)
  | _ => none

def ParameterRow.textUnder? (project file : String) (row : ParameterRow) : String → Option String
  | "project" => some project
  | "file" => some file
  | "parameter_name" => some row.declaration.name
  | "object_name" => some row.declaration.owner
  | "contract" => some row.declaration.contract
  | "type" => some row.declaration.type
  | "type_category" => some row.declaration.category
  | "initial_value" => some (row.declaration.initial.getD "")
  | "visibility" => some row.declaration.visibility
  | "description" => some row.comment.description
  | "full_comment" => some row.comment.full
  | "inline_comment" => some row.comment.inline
  | _ => none

theorem textUnder?_objectTitles (project file : String) (row : ObjectRow) :
    objectTitles.map (row.textUnder? project file) =
      (objectFields project file row).map some := by
  rfl

theorem textUnder?_parameterTitles (project file : String) (row : ParameterRow) :
    parameterTitles.map (row.textUnder? project file) =
      (parameterFields project file row).map some := by
  rfl

/-- Both documents are read back without loss: the titles, then one record for each row, in
the order of files and tables. A record has as many fields as there are titles, and under
each title the text that belongs there. -/
theorem csv_documents_read_back (project : String) (files : List LabelledTables) :
    (Csv.read? (objectsCsv project files) =
        some (objectTitles :: files.flatMap fun file =>
          file.tables.objects.map (objectFields project file.label)) ∧
      Csv.read? (parametersCsv project files) =
        some (parameterTitles :: files.flatMap fun file =>
          file.tables.parameters.map (parameterFields project file.label))) ∧
    (∀ file row, (objectFields project file row).length = objectTitles.length ∧
      objectTitles.map (row.textUnder? project file) =
        (objectFields project file row).map some) ∧
    (∀ file row, (parameterFields project file row).length = parameterTitles.length ∧
      parameterTitles.map (row.textUnder? project file) =
        (parameterFields project file row).map some) := by
  refine ⟨⟨read?_objectsCsv project files, read?_parametersCsv project files⟩, ?_, ?_⟩
  · intro file row
    exact ⟨length_objectFields project file row, textUnder?_objectTitles project file row⟩
  · intro file row
    exact ⟨length_parameterFields project file row, textUnder?_parameterTitles project file row⟩

end ContractTables
