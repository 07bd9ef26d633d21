import ContractTables.Proofs.Document
import ContractTables.Proofs.Text.Trim
import ContractTables.Source

/-!
Indentation, trailing blanks and line ends. Every window of the source is cleaned alike
whether its lines have been trimmed before or not, and so the tables of a source are those
of its trimmed lines.
-/
namespace ContractTables

open Text

namespace Comment

section Beside

variable {c : Char} (blank : isBlank c) (line : Line)

include blank

theorem ne_slash_of_isBlank : c ≠ '/' := by
  rintro rfl
  exact absurd blank (by decide)

theorem dropSlashes_concat : dropSlashes (line ++ [c]) = dropSlashes line := by
  rw [dropSlashes, dropSlashes, List.dropWhile_append]
  cases kept : line.dropWhile (· = '/') with
  | nil => simpa [ne_slash_of_isBlank blank] using trim_concat blank []
  | cons first rest => simpa using trim_concat blank (first :: rest)

theorem besideCode_cons : besideCode (c :: line) = besideCode line := by
  have mark : "//".toList = ['/', '/'] := by decide
  rw [besideCode, besideCode, mark, cutFirst?_cons (ne_slash_of_isBlank blank)]
  cases cutFirst? ['/', '/'] line <;> rfl

theorem besideCode_concat : besideCode (line ++ [c]) = besideCode line := by
  have mark : "//".toList = ['/', '/'] := by decide
  have absent : c ∉ ['/', '/'] := by simp [ne_slash_of_isBlank blank]
  rw [besideCode, besideCode, mark, cutFirst?_concat (by simp) absent]
  cases cutFirst? ['/', '/'] line with
  | none => rfl
  | some found => exact dropSlashes_concat blank found.2

end Beside

theorem besideCode_trimStart (line : Line) : besideCode (trimStart line) = besideCode line := by
  induction line with
  | nil => rfl
  | cons c rest ih =>
      by_cases blank : isBlank c
      · rw [trimStart_cons blank, ih, besideCode_cons blank]
      · rw [trimStart, List.dropWhile_cons_of_neg blank]

theorem besideCode_trimEnd (line : Line) : besideCode (trimEnd line) = besideCode line := by
  -- Trimming at the end takes the last character first.
  induction line using List.reverseRecOn with
  | nil => rfl
  | append_singleton front c ih =>
      by_cases blank : isBlank c
      · rw [trimEnd_concat blank, ih, besideCode_concat blank]
      · rw [trimEnd_eq_rdropWhile, List.rdropWhile_concat_neg _ _ _ blank]

@[simp] theorem besideCode_trim (line : Line) : besideCode (trim line) = besideCode line := by
  rw [trim, besideCode_trimEnd, besideCode_trimStart]

theorem window_map_trim (lines : List Line) (first last : Nat) :
    window (lines.map trim) first last = (window lines first last).map trim := by
  rw [window, window, List.map_drop, List.map_take]

theorem clean_map_trim (region : List Line) : clean (region.map trim) = clean region := by
  have kept : nonblank (region.map trim) = nonblank region := by
    simp [nonblank, Function.comp_def]
  rw [clean, clean, kept]

theorem cleanDeclaration_map_trim (region : List Line) :
    cleanDeclaration (region.map trim) = cleanDeclaration region := by
  rw [cleanDeclaration, cleanDeclaration, List.getLast?_map, ← List.map_dropLast, clean_map_trim]
  cases region.getLast? with
  | none => rfl
  | some last => exact congrArg (Prod.mk _) (besideCode_trim last)

theorem definitionComments_map_trim (lines : List Line) (spans : List LineSpan) :
    definitionComments (lines.map trim) spans = definitionComments lines spans := by
  simp only [definitionComments, ofDefinition?, definitionWindow, window_map_trim, clean_map_trim]

theorem attachToObjects_map_trim (lines : List Line) (tables : Tables) :
    attachToObjects (lines.map trim) tables = attachToObjects lines tables := by
  rw [attachToObjects, attachToObjects, definitionComments_map_trim]

theorem attachInline_map_trim (lines : List Line) (rows : List ParameterRow) :
    attachInline (lines.map trim) rows = attachInline lines rows := by
  simp only [attachInline, ofDeclaration?, declarationWindow, window_map_trim,
    cleanDeclaration_map_trim]

end Comment

namespace Tables

open Comment

theorem annotate_map_trim (tables : Tables) (lines : List Line) :
    tables.annotate (lines.map trim) = tables.annotate lines := by
  simp only [annotate, attachInline, attachToObjects_map_trim, attachInline_map_trim]

theorem parse_map_trim (settings : Settings) (root : Node) (lines : List Line) :
    parse settings root (lines.map trim) = parse settings root lines := by
  simp only [parse, annotate_map_trim]

/-- A syntax tree gives the same tables, or the same fault, with any two sources whose lines
are equal once they are trimmed, and a source text gives the same whether its lines end in a
line feed alone or in a carriage return before it. -/
theorem parse_ignores_blank_ends :
    (∀ (settings : Settings) (root : Node) (lines otherLines : List Line),
      lines.map trim = otherLines.map trim →
      parse settings root lines = parse settings root otherLines) ∧
    ∀ (settings : Settings) (root : Node) (source : String),
      parseSource settings root (String.ofList (withReturns source.toList)) =
        parseSource settings root source := by
  constructor
  · intro settings root lines otherLines same
    rw [← parse_map_trim, same, parse_map_trim]
  · intro settings root source
    have same := map_trim_lines_withReturns source.toList
    rw [parseSource, parseSource, String.toList_ofList, ← parse_map_trim, same, parse_map_trim]

def escrow : Node :=
  Document.ofContracts
    [Document.contract "Escrow" 1 4 [Document.function "deposit" 3 ["amount"]]]

def escrowLines : List Line :=
  ["interface Escrow", "/// Takes a deposit.", "function deposit(uint amount); // in wei",
    ""].map String.toList

def escrowIndented : List Line :=
  ["interface Escrow ", "\t/// Takes a deposit.  \r",
    "    function deposit(uint amount); // in wei\r", "\r"].map String.toList

theorem parse_escrow_indented :
    escrowLines.map trim = escrowIndented.map trim ∧
      parse {} escrow escrowLines = parse {} escrow escrowIndented ∧
      (parse {} escrow escrowLines).toOption.map (·.parameters.map (·.comment)) =
        some [⟨"Takes a deposit.\nin wei", "Takes a deposit.", "in wei"⟩] := by
  have same : escrowLines.map trim = escrowIndented.map trim := by decide +kernel
  refine ⟨same, ?_, by decide +kernel⟩
  exact parse_ignores_blank_ends.1 {} escrow escrowLines escrowIndented same

end Tables
end ContractTables
