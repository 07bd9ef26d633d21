import ContractTables.Coding.Match
import ContractTables.Proofs.Text.Sigma
import ContractTables.Proofs.Text.Trim

/-!
Words found in identifiers and in running text. A word that begins an identifier in any case
is found in the same characters as running text. A word that stands in it as it is written
may be missed there: if it has a capital sigma whose form in the longer text is another one
than in the word. These words are told exactly.
-/
namespace ContractTables

namespace Text

theorem not_isCased_underscore : isCased '_' = false := by decide +kernel

/-- Underscores show no cased character, so what they enclose becomes what it becomes alone. -/
theorem lower_stripBoth_isInfix (text : List Char) :
    lower (stripBoth (· = '_') text) <:+: lower text := by
  obtain ⟨front, back, whole, before, after⟩ := exists_ends_of_stripBoth (· = '_') text
  have plain (c : Char) (underscore : decide (c = '_') = true) : isCased c = false := by
    rw [of_decide_eq_true underscore]
    exact not_isCased_underscore
  have alike := standsAlike_of_uncased (stripBoth (· = '_') text)
    (touchesCased_of_forall fun c member => plain c (before c (List.mem_reverse.mp member)))
    (touchesCased_of_forall fun c member => plain c (after c member))
  conv => rhs; rw [whole]
  exact lower_isInfix_of_standsAlike alike

end Text

namespace Coding

open Text

theorem inText_iff {text word : String} :
    inText text word ↔ text ≠ "" ∧ word ≠ "" ∧ lower word.toList <:+: lower text.toList := by
  simp [inText, occurs_iff, and_assoc]

theorem inIdentifier_iff {identifier word : String} :
    inIdentifier identifier word ↔ identifier ≠ "" ∧ word ≠ "" ∧
      (word.toList <:+: identifier.toList ∨
        lower word.toList <+: lower (stripBoth (· = '_') identifier.toList)) := by
  simp [inIdentifier, occurs_iff, startsWith_iff, and_assoc]

/-- A place in a text where a word stands as it is written, with its sigmas in the forms they
take in the word alone. -/
def StandsIn (text word : String) : Prop :=
  ∃ front back, text.toList = front ++ word.toList ++ back ∧
    StandsAlike front.reverse word.toList back

theorem ne_empty_of_isInfix {text word : String} (filled : word ≠ "")
    (inside : word.toList <:+: text.toList) : text ≠ "" := by
  rintro rfl
  exact filled (String.toList_eq_nil_iff.mp (List.infix_nil.mp inside))

theorem inText_of_standsIn {text word : String} (filled : word ≠ "") (stands : StandsIn text word) :
    inText text word := by
  obtain ⟨front, back, whole, alike⟩ := stands
  have inside : word.toList <:+: text.toList := by
    rw [whole]
    exact List.infix_append front word.toList back
  refine inText_iff.mpr ⟨ne_empty_of_isInfix filled inside, filled, ?_⟩
  rw [whole]
  exact lower_isInfix_of_standsAlike alike

theorem inText_of_isPrefix {identifier word : String} (named : identifier ≠ "") (filled : word ≠ "")
    (begins : lower word.toList <+: lower (stripBoth (· = '_') identifier.toList)) :
    inText identifier word :=
  inText_iff.mpr ⟨named, filled, begins.isInfix.trans (lower_stripBoth_isInfix _)⟩

/-- A word that is found wherever it stands is one whose sigmas do not depend on the place. -/
theorem inText_of_isInfix_iff {word : String} (filled : word ≠ "") :
    (∀ text : String, word.toList <:+: text.toList → inText text word) ↔
      SigmasSettled word.toList := by
  rw [← lower_isInfix_iff_settled]
  constructor
  · intro found front back
    have inside : word.toList <:+: (String.ofList (front ++ word.toList ++ back)).toList := by
      rw [String.toList_ofList]
      exact List.infix_append front word.toList back
    have lowered := (inText_iff.mp (found _ inside)).2.2
    rwa [String.toList_ofList] at lowered
  · intro lowered text inside
    obtain ⟨front, back, whole⟩ := inside
    refine inText_iff.mpr ⟨ne_empty_of_isInfix filled ⟨front, back, whole⟩, filled, ?_⟩
    rw [← whole]
    exact lowered front back

theorem inText_of_inIdentifier_iff {word : String} :
    (∀ identifier, inIdentifier identifier word → inText identifier word) ↔
      SigmasSettled word.toList := by
  by_cases empty : word = ""
  · -- The empty word is never found and has no sigma.
    subst empty
    refine iff_of_true (fun identifier found => ?_) (sigmasSettled_of_notMem List.not_mem_nil)
    exact absurd rfl (inIdentifier_iff.mp found).2.1
  · rw [← inText_of_isInfix_iff empty]
    constructor
    · intro found text inside
      exact found text
        (inIdentifier_iff.mpr ⟨ne_empty_of_isInfix empty inside, empty, .inl inside⟩)
    · intro found identifier strict
      obtain ⟨named, filled, inside | begins⟩ := inIdentifier_iff.mp strict
      · exact found identifier inside
      · exact inText_of_isPrefix named filled begins

/-- When a word that is found in an identifier is found in the same characters as running
text: always if the identifier begins with it in some case or holds it with its sigmas as
they are in the word alone. A word is found in all of them exactly if its sigmas do not
depend on the place, and just these words are found wherever they stand. -/
theorem strict_match_is_loose (word : String) :
    (∀ identifier, inIdentifier identifier word →
      lower word.toList <+: lower (stripBoth (· = '_') identifier.toList) ∨
          StandsIn identifier word →
        inText identifier word) ∧
    ((∀ identifier, inIdentifier identifier word → inText identifier word) ↔
      SigmasSettled word.toList) ∧
    (word ≠ "" →
      ((∀ text : String, word.toList <:+: text.toList → inText text word) ↔
        SigmasSettled word.toList)) := by
  refine ⟨fun identifier strict place => ?_, inText_of_inIdentifier_iff, inText_of_isInfix_iff⟩
  obtain ⟨named, filled, _⟩ := inIdentifier_iff.mp strict
  rcases place with begins | stands
  · exact inText_of_isPrefix named filled begins
  · exact inText_of_standsIn filled stands

/-- A word at the end of an identifier, behind an underscore. -/
theorem standsIn_newLaw : StandsIn "ΝΕΟΣ_ΝΟΜΟΣ" "ΝΟΜΟΣ" :=
  ⟨"ΝΕΟΣ_".toList, [], by decide, standsAlike_of_uncased _ (by decide +kernel) rfl⟩

theorem sigmasSettled_body : SigmasSettled "Σώμα".toList := by
  intro front back here
  have only : 'Σ' ∉ "ώμα".toList := by decide
  cases front with
  | nil =>
      obtain rfl : "ώμα".toList = back := (List.cons.inj here).2
      have next : nearest? "ώμα".toList = some 'ώ' := by decide +kernel
      exact .cased next (by decide +kernel)
  | cons c rest =>
      have again : "ώμα".toList = rest ++ 'Σ' :: back := (List.cons.inj here).2
      rw [again] at only
      exact absurd (List.mem_append_right rest List.mem_cons_self) only

theorem strict_match_is_loose_greek :
    inText "ΝΕΟΣ_ΝΟΜΟΣ" "ΝΟΜΟΣ" ∧ inText "ΤοΣώμα" "Σώμα" ∧
      inText "Το Σώμα αποφάσισε" "Σώμα" :=
  ⟨(strict_match_is_loose "ΝΟΜΟΣ").1 "ΝΕΟΣ_ΝΟΜΟΣ" (by decide +kernel) (.inr standsIn_newLaw),
    (strict_match_is_loose "Σώμα").2.1.mpr sigmasSettled_body "ΤοΣώμα" (by decide +kernel),
    ((strict_match_is_loose "Σώμα").2.2 (by decide)).mpr sigmasSettled_body "Το Σώμα αποφάσισε"
      ⟨"Το ".toList, " αποφάσισε".toList, by decide⟩⟩

/-- The final sigma of the word stands inside of the identifier, where it has another form. -/
theorem law_missed_in_bill :
    ¬ (inIdentifier "ΝΟΜΟΣΧΕΔΙΟ" "ΝΟΜΟΣ" → inText "ΝΟΜΟΣΧΕΔΙΟ" "ΝΟΜΟΣ") := by
  have strict : inIdentifier "ΝΟΜΟΣΧΕΔΙΟ" "ΝΟΜΟΣ" = true := by decide +kernel
  have loose : inText "ΝΟΜΟΣΧΕΔΙΟ" "ΝΟΜΟΣ" = false := by decide +kernel
  rw [strict, loose]
  decide

end Coding
end ContractTables
