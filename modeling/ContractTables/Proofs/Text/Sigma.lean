import Mathlib.Data.List.Infix
import ContractTables.Text.Case

/-!
Lower-casing inside a longer text. Only a capital sigma looks around, on both sides at the
nearest character that is not case ignorable. So a piece of a text becomes what it becomes
alone unless one of its sigmas looks past an end of the piece, and the pieces that are found
in lower case wherever they stand are those in which no sigma has to.
-/
namespace ContractTables.Text

def nearest? (text : List Char) : Option Char := text.find? (!isCaseIgnorable ·)

def isFinal (before after : List Char) : Bool := touchesCased before && !touchesCased after

def sigmaForm (before after : List Char) : Char := if isFinal before after then 'ς' else 'σ'

def lowerWithin (before : List Char) : List Char → List Char → List Char
  | [], _ => []
  | c :: rest, after => lowerBetween before c (rest ++ after) ++ lowerWithin (c :: before) rest after

/-- Every capital sigma of a text takes the form between two others that it takes alone. -/
def StandsAlike (before text after : List Char) : Prop :=
  ∀ front back, text = front ++ 'Σ' :: back →
    isFinal (front.reverse ++ before) (back ++ after) = isFinal front.reverse back

inductive Settled (front back : List Char) : Prop where
  | uncased {c : Char} (before : nearest? front.reverse = some c) (plain : isCased c = false)
  | cased {c : Char} (after : nearest? back = some c) (letter : isCased c)
  | both (before : (nearest? front.reverse).isSome) (after : (nearest? back).isSome)

def SigmasSettled (text : List Char) : Prop :=
  ∀ front back, text = front ++ 'Σ' :: back → Settled front back

theorem touchesCased_eq (text : List Char) :
    touchesCased text = (nearest? text).any isCased := by
  induction text with
  | nil => rfl
  | cons c rest ih =>
      by_cases ignorable : isCaseIgnorable c
      · simpa [touchesCased, nearest?, ignorable] using ih
      · simp [touchesCased, nearest?, ignorable]

theorem nearest?_append (text rest : List Char) :
    nearest? (text ++ rest) = (nearest? text).or (nearest? rest) :=
  List.find?_append

/-- A text that shows no cased character changes nothing behind another one. -/
theorem touchesCased_append_uncased (text : List Char) {rest : List Char}
    (uncased : touchesCased rest = false) : touchesCased (text ++ rest) = touchesCased text := by
  rw [touchesCased_eq] at uncased
  rw [touchesCased_eq, touchesCased_eq, nearest?_append]
  cases nearest? text with
  | none => exact uncased
  | some c => rfl

theorem touchesCased_append_of_touchesCased {text : List Char} (cased : touchesCased text)
    (rest : List Char) : touchesCased (text ++ rest) := by
  rw [touchesCased_eq] at cased
  rw [touchesCased_eq, nearest?_append]
  cases seen : nearest? text with
  | none =>
      rw [seen] at cased
      cases cased
  | some c => rwa [seen] at cased

theorem touchesCased_of_forall {text : List Char} (uncased : ∀ c ∈ text, isCased c = false) :
    touchesCased text = false := by
  rw [touchesCased_eq]
  cases seen : nearest? text with
  | none => rfl
  | some c => exact uncased c (List.mem_of_find?_eq_some seen)

theorem lowerBetween_sigma (before after : List Char) :
    lowerBetween before 'Σ' after = [sigmaForm before after] := by
  rw [lowerBetween, if_pos rfl, sigmaForm, isFinal]
  split
  · rfl
  · rfl

theorem lowerBetween_of_ne {c : Char} (other : c ≠ 'Σ') (before after : List Char) :
    lowerBetween before c after = lowerBetween [] c [] := by
  rw [lowerBetween, lowerBetween, if_neg other, if_neg other]

theorem lowerAfter_append (before text after : List Char) :
    lowerAfter before (text ++ after) =
      lowerWithin before text after ++ lowerAfter (text.reverse ++ before) after := by
  induction text generalizing before with
  | nil => rfl
  | cons c rest ih => simp [lowerAfter, lowerWithin, ih]

theorem lowerWithin_append (before text more after : List Char) :
    lowerWithin before (text ++ more) after =
      lowerWithin before text (more ++ after) ++
        lowerWithin (text.reverse ++ before) more after := by
  induction text generalizing before with
  | nil => rfl
  | cons c rest ih => simp [lowerWithin, ih]

theorem lower_eq_lowerWithin (text : List Char) : lower text = lowerWithin [] text [] := by
  simpa [lower, lowerAfter] using lowerAfter_append [] text []

theorem lowerWithin_congr {before after other others text : List Char}
    (alike : ∀ front back, text = front ++ 'Σ' :: back →
      isFinal (front.reverse ++ before) (back ++ after) =
        isFinal (front.reverse ++ other) (back ++ others)) :
    lowerWithin before text after = lowerWithin other text others := by
  induction text generalizing before other with
  | nil => rfl
  | cons c rest ih =>
      have later : lowerWithin (c :: before) rest after = lowerWithin (c :: other) rest others := by
        refine ih fun front back here => ?_
        simpa using alike (c :: front) back (by rw [here, List.cons_append])
      rw [lowerWithin, lowerWithin, later]
      by_cases sigma : c = 'Σ'
      · subst sigma
        have here : isFinal before (rest ++ after) = isFinal other (rest ++ others) :=
          alike [] rest rfl
        rw [lowerBetween_sigma, lowerBetween_sigma, sigmaForm, sigmaForm, here]
      · rw [lowerBetween_of_ne sigma, lowerBetween_of_ne sigma other]

/-- A piece whose sigmas are unaffected is found in lower case. -/
theorem lower_isInfix_of_standsAlike {front text back : List Char}
    (alike : StandsAlike front.reverse text back) :
    lower text <:+: lower (front ++ text ++ back) := by
  have inside : lower text = lowerWithin front.reverse text back := by
    rw [lower_eq_lowerWithin]
    refine lowerWithin_congr fun before after here => ?_
    rw [List.append_nil, List.append_nil]
    exact (alike before after here).symm
  rw [inside, lower, List.append_assoc, lowerAfter_append, lowerAfter_append, List.append_nil]
  exact List.infix_append' _ _ _

theorem standsAlike_of_uncased {before after : List Char} (text : List Char)
    (uncasedBefore : touchesCased before = false) (uncasedAfter : touchesCased after = false) :
    StandsAlike before text after := by
  intro front back _
  rw [isFinal, touchesCased_append_uncased _ uncasedBefore,
    touchesCased_append_uncased _ uncasedAfter]
  rfl

theorem Settled.isFinal_eq {front back : List Char} (settled : Settled front back)
    (before after : List Char) :
    isFinal (front.reverse ++ before) (back ++ after) = isFinal front.reverse back := by
  simp only [isFinal, touchesCased_eq, nearest?_append]
  cases settled with
  | uncased seen plain => simp [seen, plain]
  | cased seen letter => simp [seen, letter]
  | both seenBefore seenAfter =>
      rw [Option.or_of_isSome seenBefore, Option.or_of_isSome seenAfter]

theorem sigmasSettled_of_notMem {text : List Char} (absent : 'Σ' ∉ text) :
    SigmasSettled text := by
  rintro front back rfl
  exact absurd (List.mem_append_right front List.mem_cons_self) absent

theorem standsAlike_of_settled {text : List Char} (settled : SigmasSettled text)
    (before after : List Char) : StandsAlike before text after :=
  fun front back here => (settled front back here).isFinal_eq before after

/-! Sigmas that change. A form that is lost where one sigma stands and gained nowhere is too
rare afterwards for the old lower case to be found. -/

theorem count_singleton_of_ne {c form : Char} (different : c ≠ form) : [c].count form = 0 :=
  List.count_eq_zero.mpr fun member => different (List.mem_singleton.mp member).symm

section Counts

variable {form : Char} {before after other others : List Char}
  (fewer : ∀ front back, sigmaForm (front ++ other) (back ++ others) = form →
    sigmaForm (front ++ before) (back ++ after) = form)

include fewer

theorem count_lowerWithin_le (text : List Char) :
    (lowerWithin other text others).count form ≤ (lowerWithin before text after).count form := by
  induction text generalizing before other with
  | nil => exact Nat.le_refl 0
  | cons c rest ih =>
      have later : (lowerWithin (c :: other) rest others).count form ≤
          (lowerWithin (c :: before) rest after).count form :=
        ih fun front back => by simpa using fewer (front ++ [c]) back
      rw [lowerWithin, lowerWithin, List.count_append, List.count_append]
      refine Nat.add_le_add ?_ later
      by_cases sigma : c = 'Σ'
      · subst sigma
        rw [lowerBetween_sigma, lowerBetween_sigma]
        by_cases kept : sigmaForm other (rest ++ others) = form
        · have there : sigmaForm before (rest ++ after) = form := fewer [] rest kept
          rw [kept, there]
        · rw [count_singleton_of_ne kept]
          exact Nat.zero_le _
      · rw [lowerBetween_of_ne sigma, lowerBetween_of_ne sigma before]

theorem count_lowerWithin_lt {front back : List Char}
    (had : sigmaForm (front.reverse ++ before) (back ++ after) = form)
    (lost : sigmaForm (front.reverse ++ other) (back ++ others) ≠ form) :
    (lowerWithin other (front ++ 'Σ' :: back) others).count form <
      (lowerWithin before (front ++ 'Σ' :: back) after).count form := by
  -- The sigma has the form no more, and the texts around it do not gain it.
  have first : (lowerWithin other front ('Σ' :: back ++ others)).count form ≤
      (lowerWithin before front ('Σ' :: back ++ after)).count form :=
    count_lowerWithin_le (fun left right => by simpa using fewer left (right ++ 'Σ' :: back)) front
  have last : (lowerWithin ('Σ' :: (front.reverse ++ other)) back others).count form ≤
      (lowerWithin ('Σ' :: (front.reverse ++ before)) back after).count form :=
    count_lowerWithin_le
      (fun left right => by simpa using fewer (left ++ 'Σ' :: front.reverse) right) back
  have here : [sigmaForm (front.reverse ++ before) (back ++ after)].count form = 1 := by
    rw [had, List.count_singleton_self]
  have gone : [sigmaForm (front.reverse ++ other) (back ++ others)].count form = 0 :=
    count_singleton_of_ne lost
  rw [lowerWithin_append, lowerWithin_append, lowerWithin, lowerWithin, lowerBetween_sigma,
    lowerBetween_sigma]
  simp only [List.count_append, here, gone]
  omega

end Counts

theorem sigmaForm_eq_final_iff {before after : List Char} :
    sigmaForm before after = 'ς' ↔ isFinal before after = true := by
  cases final : isFinal before after <;> simp [sigmaForm, final]

theorem sigmaForm_eq_medial_iff {before after : List Char} :
    sigmaForm before after = 'σ' ↔ isFinal before after = false := by
  cases final : isFinal before after <;> simp [sigmaForm, final]

/-- More text behind a sigma ends no word that went on. -/
theorem isFinal_of_append {before after : List Char} (rest : List Char)
    (final : isFinal before (after ++ rest)) : isFinal before after := by
  rw [isFinal, Bool.and_eq_true, Bool.not_eq_true'] at final ⊢
  refine ⟨final.1, ?_⟩
  rw [← Bool.not_eq_true] at final ⊢
  exact fun cased => final.2 (touchesCased_append_of_touchesCased cased rest)

/-- More text before a sigma takes no letter of its word away. -/
theorem isFinal_append {before after : List Char} (final : isFinal before after)
    (rest : List Char) : isFinal (before ++ rest) after := by
  rw [isFinal, Bool.and_eq_true] at final ⊢
  exact ⟨touchesCased_append_of_touchesCased final.1 rest, final.2⟩

/-- A letter at one of the ends changes a sigma that is not settled. -/
theorem changes_of_not_settled {front back : List Char} (unsettled : ¬ Settled front back) :
    (isFinal front.reverse back = true ∧ isFinal front.reverse (back ++ ['a']) = false) ∨
      (isFinal front.reverse back = false ∧ isFinal (front.reverse ++ ['a']) back = true) := by
  have letter : nearest? ['a'] = some 'a' := by decide +kernel
  have cased : isCased 'a' = true := by decide +kernel
  simp only [isFinal, touchesCased_eq, nearest?_append, letter]
  cases before : nearest? front.reverse with
  | none =>
      cases after : nearest? back with
      | none => exact .inr (by simp [cased])
      | some d =>
          have plain : isCased d = false :=
            Bool.eq_false_iff.mpr fun letter => unsettled (.cased after letter)
          exact .inr (by simp [cased, plain])
  | some c =>
      have inWord : isCased c = true := by
        rw [← Bool.not_eq_false]
        exact fun plain => unsettled (.uncased before plain)
      cases after : nearest? back with
      | none => exact .inl (by simp [cased, inWord])
      | some d =>
          refine absurd (Settled.both ?_ ?_) unsettled
          · rw [before, Option.isSome_some]
          · rw [after, Option.isSome_some]

theorem lowerAfter_letter (before after : List Char) :
    lowerAfter before ('a' :: after) = 'a' :: lowerAfter ('a' :: before) after := by
  have other : 'a' ≠ 'Σ' := by decide
  have small : lowerBetween [] 'a' [] = ['a'] := by decide +kernel
  rw [lowerAfter, lowerBetween_of_ne other, small]
  rfl

theorem lower_concat_letter (text : List Char) :
    lower (text ++ ['a']) = lowerWithin [] text ['a'] ++ ['a'] := by
  rw [lower, lowerAfter_append, lowerAfter_letter]
  rfl

theorem lower_cons_letter (text : List Char) :
    lower ('a' :: text) = 'a' :: lowerWithin ['a'] text [] := by
  rw [lower, lowerAfter_letter]
  simpa [lowerAfter] using lowerAfter_append ['a'] text []

/-- The texts whose lower case is found wherever they stand. -/
theorem lower_isInfix_iff_settled {text : List Char} :
    (∀ front back, lower text <:+: lower (front ++ text ++ back)) ↔ SigmasSettled text := by
  constructor
  · intro found front back here
    by_contra unsettled
    rcases changes_of_not_settled unsettled with ⟨final, medial⟩ | ⟨medial, final⟩
    · -- A letter behind the text leaves fewer final sigmas in it.
      have fewer : (lowerWithin [] text ['a']).count 'ς' < (lower text).count 'ς' := by
        rw [lower_eq_lowerWithin, here]
        refine count_lowerWithin_lt (fun left right => ?_) ?_ ?_
        · rw [sigmaForm_eq_final_iff, sigmaForm_eq_final_iff, List.append_nil right]
          exact isFinal_of_append ['a']
        · rw [sigmaForm_eq_final_iff, List.append_nil, List.append_nil]
          exact final
        · rw [Ne, sigmaForm_eq_final_iff, List.append_nil, medial]
          exact Bool.false_ne_true
      have counted := (found [] ['a']).sublist.count_le 'ς'
      rw [List.nil_append, lower_concat_letter, List.count_append] at counted
      exact absurd fewer (Nat.not_lt.mpr counted)
    · -- A letter before the text makes some sigma of it final.
      have fewer : (lowerWithin ['a'] text []).count 'σ' < (lower text).count 'σ' := by
        rw [lower_eq_lowerWithin, here]
        refine count_lowerWithin_lt (fun left right => ?_) ?_ ?_
        · rw [sigmaForm_eq_medial_iff, sigmaForm_eq_medial_iff, List.append_nil left]
          intro medial
          rw [← Bool.not_eq_true] at medial ⊢
          exact fun final => medial (isFinal_append final ['a'])
        · rw [sigmaForm_eq_medial_iff, List.append_nil, List.append_nil]
          exact medial
        · rw [Ne, sigmaForm_eq_medial_iff, List.append_nil, final]
          exact Bool.noConfusion
      have counted := (found ['a'] []).sublist.count_le 'σ'
      rw [List.append_nil, List.singleton_append, lower_cons_letter] at counted
      exact absurd fewer (Nat.not_lt.mpr counted)
  · intro settled front back
    exact lower_isInfix_of_standsAlike (standsAlike_of_settled settled front.reverse back)

end ContractTables.Text
