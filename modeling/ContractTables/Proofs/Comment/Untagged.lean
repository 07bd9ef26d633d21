import ContractTables.Comment.Found
import ContractTables.Proofs.Comment.TagLines
import ContractTables.Proofs.Text.Marks

/-!
Tags in what is said about a declaration. A text loses its tags with all that stands before
the last one, and no tag comes about where texts are joined by blanks. A comment that stands
beside its declaration only is kept with the tags in it.
-/
namespace ContractTables.Comment

open Text

def HoldsTag (text : List Char) : Prop := ∃ c, isTagLetter c ∧ occurs ['@', c] text

theorem opensSection_iff (text : List Char) :
    opensSection text ↔ ∃ c, isTagLetter c ∧ startsWith ['@', c] text := by
  constructor
  · intro opens
    unfold opensSection at opens
    split at opens
    · next c rest => exact ⟨c, opens, startsWith_iff.mpr ⟨rest, rfl⟩⟩
    · cases opens
  · rintro ⟨c, letter, starts⟩
    obtain ⟨rest, rfl⟩ := startsWith_iff.mp starts
    exact letter

theorem not_holdsTag_nil : ¬ HoldsTag [] := by
  rintro ⟨c, _, inside⟩
  cases inside

theorem holdsTag_cons (c : Char) (rest : List Char) :
    HoldsTag (c :: rest) ↔ opensSection (c :: rest) ∨ HoldsTag rest := by
  simp only [opensSection_iff, HoldsTag, occurs, Bool.or_eq_true, and_or_left, exists_or]

theorem HoldsTag.of_infix {piece text : List Char} (holds : HoldsTag piece)
    (within : piece <:+: text) : HoldsTag text := by
  obtain ⟨c, letter, inside⟩ := holds
  exact ⟨c, letter, occurs_iff.mpr ((occurs_iff.mp inside).trans within)⟩

theorem afterLastTag?_eq_none_iff (text : List Char) :
    afterLastTag? text = none ↔ ¬ HoldsTag text := by
  induction text with
  | nil => exact iff_of_true rfl not_holdsTag_nil
  | cons c rest ih =>
      rw [holdsTag_cons, not_or, ← ih, afterLastTag?, tagAt?_eq]
      cases afterLastTag? rest with
      | some after => simp
      | none => by_cases opens : opensSection (c :: rest) <;> simp [opens]

/-- Behind the last tag there is no other one. -/
theorem not_holdsTag_afterLastTag? {text after : List Char}
    (found : afterLastTag? text = some after) : ¬ HoldsTag after := by
  induction text with
  | nil => cases found
  | cons c rest ih =>
      rw [afterLastTag?] at found
      cases later : afterLastTag? rest with
      | some behind =>
          rw [later] at found
          cases found
          exact ih later
      | none =>
          rw [later] at found
          obtain ⟨⟨tag, behind⟩, cut, rfl⟩ := Option.map_eq_some_iff.mp found
          have whole : c :: rest = '@' :: (tag ++ behind) := eq_of_tagAt? cut
          intro holds
          refine (afterLastTag?_eq_none_iff rest).mp later (holds.of_infix ?_)
          rw [(List.cons.inj whole).2]
          exact (List.suffix_append tag behind).isInfix

theorem not_holdsTag_untagged (line : Line) : ¬ HoldsTag (untagged line) := by
  intro holds
  have within := holds.of_infix (trim_isInfix _)
  cases found : afterLastTag? line with
  | none =>
      rw [found] at within
      exact (afterLastTag?_eq_none_iff line).mp found within
  | some after =>
      rw [found] at within
      exact not_holdsTag_afterLastTag? found within

/-- A blank keeps an `@` from the letter behind it. -/
theorem not_holdsTag_words (lines : List Line) :
    ¬ HoldsTag ([' '].intercalate (lines.map untagged)) := by
  rintro ⟨c, letter, inside⟩
  have apart : ' ' ∉ ['@', c] := by
    intro member
    simp only [List.mem_cons, List.not_mem_nil, or_false] at member
    rcases member with mark | blank
    · cases mark
    · subst blank
      cases letter
  rw [occurs_intercalate apart (List.cons_ne_nil _ _), List.any_eq_true] at inside
  obtain ⟨piece, member, within⟩ := inside
  obtain ⟨line, _, rfl⟩ := List.mem_map.mp member
  exact not_holdsTag_untagged line ⟨c, letter, within⟩

theorem holdsTag_iff_of_concat {above : List Line} {line : Line} {found : DeclarationComment}
    (there : ofDeclaration? (above ++ [line]) = some found) :
    (HoldsTag found.description.toList ↔ clean above = [] ∧ HoldsTag (besideCode line)) ∧
      (HoldsTag found.inline.toList ↔ clean above = [] ∧ HoldsTag (besideCode line)) := by
  rw [ofDeclaration?, cleanDeclaration_concat] at there
  cases cleaned : clean above with
  | nil =>
      -- Nothing stands above, so the text beside the declaration is all there is.
      cases beside : besideCode line with
      | nil => simp [cleaned, beside] at there
      | cons c text =>
          simp only [cleaned, beside, Option.some.injEq] at there
          simp [← there]
  | cons first rest =>
      have words := not_holdsTag_words (first :: rest)
      rw [List.map_cons] at words
      cases beside : besideCode line with
      | nil =>
          simp only [cleaned, beside, Option.some.injEq] at there
          simp [← there, words, not_holdsTag_nil]
      | cons c text =>
          simp only [cleaned, beside, Option.some.injEq] at there
          simp [← there, words, not_holdsTag_untagged]

/-- The last line of a region is the one of its declaration. The description and the comment
beside the declaration hold a tag exactly if no comment stands above that line and the one in it
holds a tag. -/
theorem tag_left_iff {region : List Line} {found : DeclarationComment}
    (there : ofDeclaration? region = some found) :
    ∃ above line, region = above ++ [line] ∧
      (HoldsTag found.description.toList ↔ clean above = [] ∧ HoldsTag (besideCode line)) ∧
      (HoldsTag found.inline.toList ↔ clean above = [] ∧ HoldsTag (besideCode line)) := by
  rcases List.eq_nil_or_concat' region with rfl | ⟨above, line, rfl⟩
  · cases there
  · exact ⟨above, line, rfl, holdsTag_iff_of_concat there⟩

def periodRegion : List Line :=
  ["// @dev Voting period,", "// @see Poll.end",
    "uint256 period; // @unit blocks"].map String.toList

theorem no_tag_left_of_period :
    ∃ found, ofDeclaration? periodRegion = some found ∧
      found.full = "@dev Voting period,\n@see Poll.end\n@unit blocks" ∧
      ¬ HoldsTag found.description.toList ∧ ¬ HoldsTag found.inline.toList := by
  have there : ofDeclaration? periodRegion =
      some ⟨"@dev Voting period,\n@see Poll.end\n@unit blocks", "Voting period, Poll.end",
        "blocks"⟩ := by decide
  obtain ⟨above, line, region, description, inline⟩ := tag_left_iff there
  have some_above : clean above ≠ [] := by
    have front : above = periodRegion.dropLast := by rw [region, List.dropLast_concat]
    rw [front]
    decide
  refine ⟨_, there, rfl, ?_, ?_⟩
  · intro holds
    exact some_above (description.mp holds).1
  · intro holds
    exact some_above (inline.mp holds).1

def votersRegion : List Line := ["uint256 voters; // @dev number of voters".toList]

theorem tag_left_beside_declaration :
    ∃ found, ofDeclaration? votersRegion = some found ∧
      found.description = "@dev number of voters" ∧ HoldsTag found.description.toList ∧
      HoldsTag found.inline.toList := by
  have there : ofDeclaration? votersRegion = some ⟨"@dev number of voters",
      "@dev number of voters", "@dev number of voters"⟩ := by decide
  have holds : HoldsTag "@dev number of voters".toList := ⟨'d', by decide, by decide⟩
  exact ⟨_, there, rfl, holds, holds⟩

end ContractTables.Comment
