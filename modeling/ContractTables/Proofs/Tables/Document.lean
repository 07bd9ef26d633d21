import ContractTables.Proofs.Json.Reading
import ContractTables.Tables.Document

/-!
Tables are recovered from their JSON document. Every field stands under its key with its
own value, kinds as tags and what is absent as null, and the document is read back from the
text that was written for it. So a text has one table at most.
-/
namespace ContractTables

open Json

theorem DefinitionKind.ofTag?_tag (kind : DefinitionKind) : ofTag? kind.tag = some kind :=
  ofTag?_eq_some_iff.mpr rfl

/-! Reading typed values. -/

namespace Json

variable {α : Type}

def under? (value : Json) (key : String) (read? : Json → Option α) : Option α :=
  (value.member? key).bind read?

def list? (read? : Json → Option α) : Json → Option (List α)
  | array items => items.mapM read?
  | _ => none

def optional? (read? : Json → Option α) : Json → Option (Option α)
  | null => some none
  | value => (read? value).map some

def entry? (member : String × Json) : Option (String × String) :=
  member.2.text?.map (member.1, ·)

def dictionary? : Json → Option (Dictionary String)
  | object members => do
      let entries ← members.mapM entry?
      if ascending : Ascending entries then some ⟨entries, ascending⟩ else none
  | _ => none

theorem under?_sorted (members : List (String × Json)) (key : String) (read? : Json → Option α) :
    (object members).sorted.under? key read? =
      (members.reverse.lookup key).bind fun value => read? value.sorted := by
  rw [under?, member?_sorted]
  exact Option.bind_map

theorem text?_sorted (value : String) : (string value).sorted.text? = some value := by
  rw [sorted] <;> simp [text?]

theorem word?_sorted {value : Nat} (small : value ≤ maxWord) :
    (nat value).sorted.word? = some value := by
  rw [nat, sorted] <;> simp [word?, small]

theorem mapM_map_eq_some {β : Type} {read? : β → Option α} {write : α → β} {items : List α}
    (each : ∀ item ∈ items, read? (write item) = some item) :
    (items.map write).mapM read? = some items := by
  induction items with
  | nil => rfl
  | cons item rest ih =>
      obtain ⟨here, each⟩ := List.forall_mem_cons.mp each
      rw [List.map_cons, List.mapM_cons, here, ih each]
      rfl

theorem list?_sorted {read? : Json → Option α} {write : α → Json} {items : List α}
    (each : ∀ item ∈ items, read? (write item).sorted = some item) :
    list? read? (array (items.map write)).sorted = some items := by
  rw [sorted, sortedItems_eq_map, list?, List.map_map]
  exact mapM_map_eq_some each

theorem texts_sorted (items : List String) : list? text? (texts items).sorted = some items :=
  list?_sorted fun item _ => text?_sorted item

theorem optional?_sorted {read? : Json → Option α} {write : α → Json} {value : Option α}
    (each : ∀ item ∈ value, read? (write item).sorted = some item)
    (present : ∀ item, (write item).sorted ≠ null) :
    optional? read? (optional (value.map write)).sorted = some value := by
  cases value with
  | none => rfl
  | some item =>
      rw [Option.map_some, optional, Option.getD_some, optional?, each item rfl]
      · rfl
      · exact present item

/-- The entries of a dictionary ascend already, so they stay as they are. -/
theorem dictionary?_sorted (dictionary : Dictionary String) :
    dictionary? (object (dictionary.entries.map fun (tag, text) => (tag, string text))).sorted =
      some dictionary := by
  have ascending : Ascending (dictionary.entries.map fun (tag, text) => (tag, string text)) :=
    List.pairwise_map.mpr dictionary.ascending
  have read : (dictionary.entries.map fun (tag, text) => (tag, (string text).sorted)).mapM entry? =
      some dictionary.entries :=
    mapM_map_eq_some fun entry _ => congrArg (Option.map (entry.1, ·)) (text?_sorted entry.2)
  rw [sorted, sortedMembers_of_ascending ascending (by simp), List.nil_append, List.map_map,
    dictionary?]
  exact (congrArg (Option.bind · _) read).trans (dif_pos dictionary.ascending)

end Json

/-! Documents of records. -/

def LineSpan.InRange (span : LineSpan) : Prop := span.first ≤ maxWord ∧ span.last ≤ maxWord

instance (span : LineSpan) : Decidable span.InRange := inferInstanceAs (Decidable (_ ∧ _))

structure Tables.InRange (tables : Tables) : Prop where
  spans : ∀ row ∈ tables.objects, row.definition.span.InRange
  lines : ∀ row ∈ tables.parameters, row.declaration.line ≤ maxWord
  diagnostics : ∀ diagnostic ∈ tables.diagnostics, ∀ line ∈ diagnostic.line, line ≤ maxWord

def LineSpan.ofDocument? (document : Json) : Option LineSpan := do
  some { first := ← document.under? "start" word?, last := ← document.under? "end" word? }

def NatSpec.ofDocument? (document : Json) : Option NatSpec := do
  some
    { title := ← document.under? "title" text?
      notice := ← document.under? "notice" text?
      dev := ← document.under? "dev" text?
      returns := ← document.under? "returns" text?
      params := ← document.under? "params" (list? text?)
      other := ← document.under? "other" dictionary? }

def Definition.ofDocument? (document : Json) : Option Definition := do
  some
    { name := ← document.under? "object_name" text?
      kind := ← document.under? "kind" (·.text?.bind DefinitionKind.ofTag?)
      contract := ← document.under? "contract" text?
      bases := ← document.under? "inheritance" (list? text?)
      modifiers := ← document.under? "modifiers" (list? text?)
      values := ← document.under? "values" (list? text?)
      visibility := ← document.under? "visibility" text?
      span := ← document.under? "line_span" LineSpan.ofDocument? }

def DefinitionComment.ofDocument? (document : Json) : Option DefinitionComment := do
  some
    { full := ← document.under? "full_comment" text?
      description := ← document.under? "description" text?
      natspec := ← document.under? "natspec" NatSpec.ofDocument? }

def Codes.ofDocument? (document : Json) : Option Codes := do
  some
    { keywords := ← document.under? "coding_keywords" (list? text?)
      topics := ← document.under? "coding_topics" (list? text?) }

def ObjectRow.ofDocument? (document : Json) : Option ObjectRow := do
  some
    { definition := ← Definition.ofDocument? document
      comment := ← DefinitionComment.ofDocument? document
      codes := ← Codes.ofDocument? document }

def Declaration.ofDocument? (document : Json) : Option Declaration := do
  some
    { name := ← document.under? "parameter_name" text?
      owner := ← document.under? "object_name" text?
      contract := ← document.under? "contract" text?
      type := ← document.under? "declared_type" text?
      category := ← document.under? "type_category" text?
      initial := ← document.under? "initial_value" (optional? text?)
      line := ← document.under? "line_number" word?
      visibility := ← document.under? "visibility" text? }

def DeclarationComment.ofDocument? (document : Json) : Option DeclarationComment := do
  some
    { full := ← document.under? "full_comment" text?
      description := ← document.under? "description" text?
      inline := ← document.under? "inline_comment" text? }

def ParameterRow.ofDocument? (document : Json) : Option ParameterRow := do
  some
    { declaration := ← Declaration.ofDocument? document
      comment := ← DeclarationComment.ofDocument? document }

def Diagnostic.ofDocument? (document : Json) : Option Diagnostic := do
  some
    { line := ← document.under? "line" (optional? word?)
      message := ← document.under? "message" text? }

def Tables.ofDocument? (document : Json) : Option Tables := do
  some
    { objects := ← document.under? "objects" (list? ObjectRow.ofDocument?)
      parameters := ← document.under? "parameters" (list? ParameterRow.ofDocument?)
      diagnostics := ← document.under? "diagnostics" (list? Diagnostic.ofDocument?) }

theorem LineSpan.ofDocument?_sorted {span : LineSpan} (range : span.InRange) :
    ofDocument? span.document.sorted = some span := by
  simp [ofDocument?, document, under?_sorted, List.lookup_cons, word?_sorted range.1,
    word?_sorted range.2]

theorem NatSpec.ofDocument?_sorted (spec : NatSpec) :
    ofDocument? spec.document.sorted = some spec := by
  simp [ofDocument?, document, under?_sorted, List.lookup_cons, text?_sorted, texts_sorted,
    dictionary?_sorted]

theorem Definition.ofDocument?_sorted {row : ObjectRow} (range : row.definition.span.InRange) :
    ofDocument? row.document.sorted = some row.definition := by
  simp [ofDocument?, ObjectRow.document, under?_sorted, List.lookup_cons, text?_sorted,
    texts_sorted, LineSpan.ofDocument?_sorted range, DefinitionKind.ofTag?_tag]

theorem ObjectRow.ofDocument?_sorted {row : ObjectRow} (range : row.definition.span.InRange) :
    ofDocument? row.document.sorted = some row := by
  rw [ofDocument?, Definition.ofDocument?_sorted range]
  simp [DefinitionComment.ofDocument?, Codes.ofDocument?, document, under?_sorted,
    List.lookup_cons, text?_sorted, texts_sorted, NatSpec.ofDocument?_sorted]

theorem ParameterRow.ofDocument?_sorted {row : ParameterRow}
    (range : row.declaration.line ≤ maxWord) : ofDocument? row.document.sorted = some row := by
  have initial : optional? text? (Json.optional (row.declaration.initial.map string)).sorted =
      some row.declaration.initial :=
    optional?_sorted (fun item _ => text?_sorted item) fun item => by simp [sorted]
  simp [ofDocument?, Declaration.ofDocument?, DeclarationComment.ofDocument?, document,
    under?_sorted, List.lookup_cons, text?_sorted, word?_sorted range, initial]

theorem Diagnostic.ofDocument?_sorted {diagnostic : Diagnostic}
    (range : ∀ line ∈ diagnostic.line, line ≤ maxWord) :
    ofDocument? diagnostic.document.sorted = some diagnostic := by
  have line : optional? word? (Json.optional (diagnostic.line.map nat)).sorted =
      some diagnostic.line :=
    optional?_sorted (fun item member => word?_sorted (range item member)) fun item => by
      simp [nat, sorted]
  simp [ofDocument?, document, under?_sorted, List.lookup_cons, text?_sorted, line]

theorem Tables.ofDocument?_sorted {tables : Tables} (range : tables.InRange) :
    ofDocument? tables.document.sorted = some tables := by
  have objects := list?_sorted fun row member =>
    ObjectRow.ofDocument?_sorted (range.spans row member)
  have parameters := list?_sorted fun row member =>
    ParameterRow.ofDocument?_sorted (range.lines row member)
  have diagnostics := list?_sorted fun row member =>
    Diagnostic.ofDocument?_sorted (range.diagnostics row member)
  simp [ofDocument?, document, under?_sorted, List.lookup_cons, objects, parameters, diagnostics]

/-! The depth of documents. -/

section Depth

variable {depth : Nat}

theorem Json.fits_nat {value : Nat} (small : value ≤ maxWord) : Fits depth (nat value) :=
  .int (Int.le_trans (by decide) (Int.natCast_nonneg value)) (Int.ofNat_le.mpr small)

theorem Json.fits_array {α : Type} {write : α → Json} {items : List α}
    (each : ∀ item ∈ items, Fits depth (write item)) :
    Fits (depth + 1) (array (items.map write)) :=
  .array (List.forall_mem_map.mpr each)

theorem Json.fits_texts (items : List String) : Fits (depth + 1) (texts items) :=
  fits_array fun item _ => .string item

theorem Json.fits_optional {α : Type} {write : α → Json} {value : Option α}
    (each : ∀ item ∈ value, Fits depth (write item)) : Fits depth (optional (value.map write)) := by
  cases value with
  | none => exact .null
  | some item => exact each item rfl

theorem LineSpan.fits_document {span : LineSpan} (range : span.InRange) :
    Fits (depth + 1) span.document := by
  apply Fits.object
  simp [fits_nat range.1, fits_nat range.2]

theorem NatSpec.fits_document (spec : NatSpec) : Fits (depth + 2) spec.document := by
  have other : Fits (depth + 1)
      (object (spec.other.entries.map fun (tag, text) => (tag, string text))) :=
    .object (List.forall_mem_map.mpr fun entry _ => .string entry.2)
  apply Fits.object
  simp [Fits.string, fits_texts, other]

theorem ObjectRow.fits_document {row : ObjectRow} (range : row.definition.span.InRange) :
    Fits (depth + 3) row.document := by
  apply Fits.object
  simp [Fits.string, fits_texts, NatSpec.fits_document, LineSpan.fits_document range]

theorem ParameterRow.fits_document {row : ParameterRow} (range : row.declaration.line ≤ maxWord) :
    Fits (depth + 1) row.document := by
  have initial : Fits depth (Json.optional (row.declaration.initial.map string)) :=
    fits_optional fun item _ => .string item
  apply Fits.object
  simp [Fits.string, fits_nat range, initial]

theorem Diagnostic.fits_document {diagnostic : Diagnostic}
    (range : ∀ line ∈ diagnostic.line, line ≤ maxWord) : Fits (depth + 1) diagnostic.document := by
  have line : Fits depth (Json.optional (diagnostic.line.map nat)) :=
    fits_optional fun item member => fits_nat (range item member)
  apply Fits.object
  simp [Fits.string, line]

theorem Tables.fits_document {tables : Tables} (range : tables.InRange) :
    Fits (depth + 5) tables.document := by
  have objects : Fits (depth + 4) (array (tables.objects.map ObjectRow.document)) :=
    fits_array fun row member => ObjectRow.fits_document (range.spans row member)
  have parameters : Fits (depth + 4) (array (tables.parameters.map ParameterRow.document)) :=
    fits_array fun row member => ParameterRow.fits_document (range.lines row member)
  have diagnostics : Fits (depth + 4) (array (tables.diagnostics.map Diagnostic.document)) :=
    fits_array fun row member => Diagnostic.fits_document (range.diagnostics row member)
  apply Fits.object
  simp [objects, parameters, diagnostics]

end Depth

namespace Tables

theorem load?_toJsonText {tables : Tables} (range : tables.InRange) :
    load? tables.toJsonText.toList = some tables.document.sorted := by
  rw [toJsonText, indentedText, String.toList_ofList]
  exact load?_indented (fits_document range)

theorem toJsonText_injective {first second : Tables} (range : first.InRange)
    (other : second.InRange) (same : first.toJsonText = second.toJsonText) : first = second := by
  have documents : some first.document.sorted = some second.document.sorted := by
    rw [← load?_toJsonText range, ← load?_toJsonText other, same]
  have tables : some first = some second := by
    rw [← ofDocument?_sorted range, ← ofDocument?_sorted other, Option.some.inj documents]
  exact Option.some.inj tables

/-- The text of tables reads back as their document, and no other tables have it. -/
theorem json_round_trip {tables : Tables} (range : tables.InRange) :
    load? tables.toJsonText.toList = some tables.document.sorted ∧
      ofDocument? tables.document.sorted = some tables ∧
      ∀ other : Tables, other.InRange → other.toJsonText = tables.toJsonText → other = tables :=
  ⟨load?_toJsonText range, ofDocument?_sorted range,
    fun _ inRange same => toJsonText_injective inRange range same⟩

def quotation : Tables where
  objects :=
    [{ definition :=
        { name := "say\"it\"", kind := .function, contract := "Ünïcode\\", bases := [],
          modifiers := ["only\tOwner"], values := [], visibility := "", span := ⟨0, maxWord⟩ }
       comment :=
        { description := "line one\nline two\x01", natspec :=
          { other := (Dictionary.empty.insert "see" "\u007f").insert "custom:a/b" "" } } }]
  parameters :=
    [{ declaration :=
        { name := "π", owner := "say\"it\"", contract := "", type := "bytes32", category := "",
          initial := none, line := maxWord, visibility := "" } }]
  diagnostics := [⟨none, "\r\n"⟩, ⟨some 7, "null"⟩]

theorem quotation_json_round_trip :
    quotation.InRange ∧ load? quotation.toJsonText.toList = some quotation.document.sorted ∧
      ofDocument? quotation.document.sorted = some quotation ∧
      ∀ other : Tables,
        other.InRange → other.toJsonText = quotation.toJsonText → other = quotation := by
  have range : quotation.InRange := ⟨by decide, by decide, by decide⟩
  exact ⟨range, json_round_trip range⟩

end Tables
end ContractTables
