import ContractTables.Declaration
import ContractTables.Proofs.Json.Loaded

/-!
Values without a literal text. An expression stands for its literal, its number or its name; one
that has none of them is written as a whole, and what is written is read again as the expression
it was.
-/
namespace ContractTables.Expression

open Json

/-- No literal, no number and no name gives the value a text of its own. -/
inductive Wordless : Json → Prop
  | array (items : List Json) : Wordless (array items)
  | object {members : List (String × Json)}
      (literal : ∀ value, (object members).member? "value" = some value →
        value = null ∨ value.isObject)
      (number : ∀ text, (object members).member? "number" ≠ some (string text))
      (name : ∀ text, (object members).member? "name" ≠ some (string text)) :
      Wordless (object members)

theorem member_text?_eq_none {value : Json} {key : String}
    (absent : ∀ text, value.member? key ≠ some (string text)) :
    (value.member? key).bind text? = none := by
  cases found : value.member? key with
  | none => rfl
  | some member =>
      cases member with
      | string text => exact absurd found (absent text)
      | null | bool _ | int _ | float _ | array _ | object _ => rfl

theorem text_of_wordless {value : Json} (wordless : Wordless value) :
    text value = value.compactText := by
  cases wordless with
  | array items => rfl
  | @object members literal number name =>
      have noNumber := member_text?_eq_none number
      have noName := member_text?_eq_none name
      rw [text]
      dsimp only
      rw [noNumber, noName]
      cases found : (Json.object members).member? "value" with
      | none => rfl
      | some value =>
          rcases literal value found with rfl | isObject
          · rfl
          · cases value with
            | object _ => rfl
            | null | bool _ | int _ | float _ | string _ | array _ => cases isObject

/-- A value without a text of its own that is part of a document, and in which there are no
binary64 numbers, is read from its text as it was. -/
theorem wordless_kept_whole {source : List Char} {document value : Json}
    (read : load? source = some document) (inside : Within value document)
    (whole : ∀ number, ¬ Within (float number) value) (wordless : Wordless value) :
    load? (text value).toList = some value := by
  rw [text_of_wordless wordless, compactText, String.toList_ofList]
  exact load?_compact_of_within read inside whole

def tuple : Json :=
  object [("components", array [int (-1), string "say \"é\"\x07"]), ("number", int maxWord),
    ("value", object [])]

def tupleWritten : Json :=
  object [("value", object []), ("number", int 1),
    ("components", array [int (-1), string "say \"é\"\x07"]), ("number", int maxWord)]

theorem fits_tupleWritten (depth : Nat) : Fits (depth + 2) tupleWritten := by
  apply Fits.object
  simp only [List.forall_mem_cons]
  refine ⟨.object (List.forall_mem_nil _), .int (by decide) (by decide), .array ?_,
    .int (by decide) (by decide), List.forall_mem_nil _⟩
  simp only [List.forall_mem_cons]
  exact ⟨.int (by decide) (by decide), .string _, List.forall_mem_nil _⟩

theorem tuple_kept_whole :
    load? ((array [tupleWritten]).indented 0) = some (array [tuple]) ∧
      Within tuple (array [tuple]) ∧ (∀ number, ¬ Within (float number) tuple) ∧
      Wordless tuple ∧ load? (text tuple).toList = some tuple := by
  have read : load? ((array [tupleWritten]).indented 0) = some (array [tuple]) := by
    rw [load?_indented (.array (List.forall_mem_singleton.mpr (fits_tupleWritten 124)))]
    rfl
  have inside : Within tuple (array [tuple]) := .item List.mem_cons_self .self
  have whole : ∀ number, ¬ Within (float number) tuple := by
    intro number inside
    cases inside with
    | member among inside =>
        simp only [List.mem_cons, Prod.mk.injEq, List.not_mem_nil, or_false] at among
        rcases among with ⟨-, rfl⟩ | ⟨-, rfl⟩ | ⟨-, rfl⟩
        · cases inside with
          | item among inside =>
              simp only [List.mem_cons, List.not_mem_nil, or_false] at among
              rcases among with rfl | rfl <;> cases inside
        · cases inside
        · cases inside with
          | member among _ => cases among
  have wordless : Wordless tuple := by
    refine .object ?_ ?_ ?_
    · intro value found
      obtain rfl : object [] = value := Option.some.inj found
      exact .inr rfl
    · intro text found
      cases Option.some.inj found
    · intro text found
      cases found
  exact ⟨read, inside, whole, wordless, wordless_kept_whole read inside whole wordless⟩

end ContractTables.Expression
