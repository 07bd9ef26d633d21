import ContractTables.Proofs.Comment.TagMarks

/-!
The tag lines of a comment. They divide its text: each one begins a section, which goes on
to the next tag line or to the end, and the text before the first one is in no section. The
tags of a comment are the keys of its tag lines, each with the values of its sections.
-/
namespace ContractTables

open Text Checked

namespace Comment

/-! Tag lines. -/

def opensSection : Line → Bool
  | '@' :: c :: _ => isTagLetter c
  | _ => false

def tagKey (line : Line) : List Char := (line.drop 1).takeWhile isTagLetter

def behindKey (line : Line) : List Char := (line.drop 1).dropWhile isTagLetter

def breakBefore : List Line → List Char
  | [] => []
  | _ :: _ => ['\n']

def upToTagLine : List Line → List Char
  | [] => []
  | line :: rest => if opensSection line then [] else line ++ breakBefore rest ++ upToTagLine rest

/-- A tag line with the text from the end of its key to the next tag line. -/
structure TagLine where
  key : List Char
  text : List Char

namespace TagLine

def written (line : TagLine) : List Char := '@' :: (line.key ++ line.text)

def value (line : TagLine) : String := String.ofList (trim (withoutBreaks line.text))

def ofLines? : List Line → Option TagLine
  | [] => none
  | line :: rest =>
      if opensSection line then
        some ⟨tagKey line, behindKey line ++ breakBefore rest ++ upToTagLine rest⟩
      else none

def toSection (line : TagLine) : Section := ⟨String.ofList line.key, line.value⟩

end TagLine

def tagLinesOf (lines : List Line) : List TagLine := lines.tails.filterMap TagLine.ofLines?

def tagLines (text : List Char) : List TagLine := tagLinesOf (text.splitOn '\n')

def valuesOf (key : String) (lines : List TagLine) : List String :=
  (lines.filter fun line => String.ofList line.key = key).map TagLine.value

/-- Values joined by line breaks, without the empty ones in front. -/
def joined (values : List String) : String := "\n".intercalate (values.dropWhile (·.isEmpty))

def joined? (values : List String) : Option String :=
  if values = [] then none else some (joined values)

theorem tagAt?_eq (line : Line) :
    tagAt? line = if opensSection line then some (tagKey line, behindKey line) else none := by
  cases line with
  | nil => rfl
  | cons mark text =>
      by_cases tagged : mark = '@'
      · subst tagged
        cases text with
        | nil => rfl
        | cons c rest =>
            by_cases letter : isTagLetter c
            · simp [tagAt?, opensSection, tagKey, behindKey, letter]
            · simp [tagAt?, opensSection, letter]
      · simp [tagAt?, opensSection, tagged]

theorem tagLinesOf_cons (line : Line) (rest : List Line) :
    tagLinesOf (line :: rest) = (TagLine.ofLines? (line :: rest)).toList ++ tagLinesOf rest := by
  rw [tagLinesOf, List.tails, List.filterMap_cons]
  cases TagLine.ofLines? (line :: rest) <;> rfl

theorem unlines_eq_breakBefore (line : Line) (rest : List Line) :
    unlines (line :: rest) = line ++ breakBefore rest ++ unlines rest := by
  cases rest with
  | nil => simp [unlines, breakBefore]
  | cons next rest =>
      rw [unlines_cons line (List.cons_ne_nil next rest), breakBefore]
      simp

/-- A tag line is its mark, its key and what stands behind the key. -/
theorem eq_of_opensSection {line : Line} (opens : opensSection line) :
    line = '@' :: (tagKey line ++ behindKey line) :=
  eq_of_tagAt? (by rw [tagAt?_eq, if_pos opens])

/-- Nothing of the text gets lost between the tag lines. -/
theorem unlines_eq_tagLines (lines : List Line) :
    unlines lines = upToTagLine lines ++ (tagLinesOf lines).flatMap TagLine.written := by
  induction lines with
  | nil => rfl
  | cons line rest ih =>
      rw [unlines_eq_breakBefore, ih, tagLinesOf_cons, TagLine.ofLines?, upToTagLine]
      by_cases opens : opensSection line
      · have whole := eq_of_opensSection opens
        rw [if_pos opens, if_pos opens]
        conv => lhs; rw [whole]
        simp [TagLine.written]
      · simp [opens]

theorem map_key_tagLinesOf (lines : List Line) :
    (tagLinesOf lines).map TagLine.key = (lines.filter opensSection).map tagKey := by
  induction lines with
  | nil => rfl
  | cons line rest ih =>
      rw [tagLinesOf_cons, List.map_append, ih, TagLine.ofLines?]
      by_cases opens : opensSection line <;> simp [opens]

/-! Their sections. -/

theorem sections_fst (lines : List Line) :
    (sections lines).1 = lines.takeWhile (!opensSection ·) := by
  induction lines with
  | nil => rfl
  | cons line rest ih =>
      rw [sections, tagAt?_eq]
      by_cases opens : opensSection line
      · simp [opens]
      · simp [opens, ih]

/-- The text from the end of a key to the next tag line ends with the break before it. -/
theorem exists_gap (first : Line) (rest : List Line) :
    ∃ gap, (gap = [] ∨ gap = ['\n']) ∧ first ++ breakBefore rest ++ upToTagLine rest =
      unlines (first :: rest.takeWhile (!opensSection ·)) ++ gap := by
  induction rest generalizing first with
  | nil => exact ⟨[], .inl rfl, by simp [breakBefore, upToTagLine, unlines]⟩
  | cons line rest ih =>
      by_cases opens : opensSection line
      · exact ⟨['\n'], .inr rfl, by simp [breakBefore, upToTagLine, opens, unlines]⟩
      · obtain ⟨gap, gapEnd, same⟩ := ih line
        refine ⟨gap, gapEnd, ?_⟩
        have kept : (line :: rest).takeWhile (!opensSection ·) =
            line :: rest.takeWhile (!opensSection ·) := by simp [opens]
        rw [kept, unlines_cons first (List.cons_ne_nil _ _), upToTagLine, if_neg opens, same,
          breakBefore]
        simp

theorem sections_snd {lines : List Line} (single : ∀ line ∈ lines, '\n' ∉ line) :
    (sections lines).2 = (tagLinesOf lines).map TagLine.toSection := by
  induction lines with
  | nil => rfl
  | cons line rest ih =>
      obtain ⟨first, others⟩ := List.forall_mem_cons.mp single
      rw [sections, tagAt?_eq, tagLinesOf_cons, List.map_append, ← ih others, TagLine.ofLines?]
      by_cases opens : opensSection line
      · have body : ∀ each ∈ behindKey line :: (sections rest).1, '\n' ∉ each := by
          intro each member
          rcases List.mem_cons.mp member with rfl | later
          · exact fun broken =>
              first ((List.drop_sublist 1 line).subset ((List.dropWhile_sublist _).subset broken))
          · have above := sections_prefix rest
            exact others each (above.subset later)
        obtain ⟨gap, gapEnd, same⟩ := exists_gap (behindKey line) rest
        have folded := trim_withoutBreaks_unlines body gapEnd
        rw [sections_fst] at folded
        rw [if_pos opens, if_pos opens]
        simp [TagLine.toSection, TagLine.value, Section.fold, same, folded, sections_fst]
      · simp [opens]

/-! Their tags. -/

theorem toList_joined (values : List String) :
    (joined values).toList = unlines ((values.dropWhile (·.isEmpty)).map String.toList) :=
  String.toList_intercalate

theorem joined_of_kept {values rest : List String} {first : String}
    (kept : values.dropWhile (·.isEmpty) = first :: rest) :
    joined values ≠ "" ∧ ∀ value, joined (values ++ [value]) = joined values ++ "\n" ++ value := by
  have filled : first ≠ "" := by
    have head := List.head?_dropWhile_not String.isEmpty values
    rw [kept] at head
    simpa using head
  constructor
  · intro empty
    have none := congrArg String.toList empty
    rw [toList_joined, kept, List.map_cons, unlines_eq_append_below] at none
    exact filled (String.toList_inj.mp (List.append_eq_nil_iff.mp none).1)
  · intro value
    have longer : (values ++ [value]).dropWhile (·.isEmpty) = first :: (rest ++ [value]) := by
      rw [List.dropWhile_append, kept]
      rfl
    apply String.toList_inj.mp
    rw [String.toList_append, String.toList_append, toList_joined, toList_joined, kept, longer]
    simp [unlines_eq_append_below, below_append]

theorem joined_concat (values : List String) (value : String) :
    joined (values ++ [value]) =
      if joined values = "" then value else joined values ++ "\n" ++ value := by
  cases kept : values.dropWhile (·.isEmpty) with
  | nil =>
      have none : joined values = "" := by rw [joined, kept]; rfl
      have alone : joined (values ++ [value]) = joined [value] := by
        rw [joined, List.dropWhile_append, kept]
        rfl
      rw [if_pos none, alone]
      by_cases empty : value = ""
      · rw [empty]
        rfl
      · simp [joined, empty]
  | cons first rest =>
      obtain ⟨filled, longer⟩ := joined_of_kept kept
      rw [if_neg filled, longer]

def oneMore (earlier : Option String) (value : String) : String :=
  match earlier with
  | none => value
  | some earlier => if earlier.isEmpty then value else earlier ++ "\n" ++ value

/-- A section adds its text to what its tag has, and changes no other tag. -/
theorem find?_addSection (tags : Dictionary String) (s : Section) (key : String) :
    (addSection tags s).find? key =
      if s.tag = key then some (oneMore (tags.find? key) s.text) else tags.find? key := by
  rw [addSection]
  by_cases same : s.tag = key
  · subst same
    rw [if_pos rfl]
    cases tags.find? s.tag <;> simp [oneMore]
  · rw [if_neg same]
    cases tags.find? s.tag <;> exact Dictionary.find?_insert_of_ne tags (Ne.symm same) _

theorem oneMore_joined? (values : List String) (value : String) :
    oneMore (joined? values) value = joined (values ++ [value]) := by
  by_cases none : values = []
  · rw [none]
    by_cases empty : value = "" <;> simp [joined?, joined, oneMore, empty]
  · rw [joined?, if_neg none, joined_concat]
    simp only [oneMore, String.isEmpty_iff]

theorem find?_foldl_addSection (lines : List TagLine) (key : String) :
    ((lines.map TagLine.toSection).foldl addSection .empty).find? key =
      joined? (valuesOf key lines) := by
  -- The tag lines are added from the first to the last, so the induction is from the end.
  induction lines using List.reverseRecOn with
  | nil => rfl
  | append_singleton before last ih =>
      rw [List.map_append, List.foldl_append, List.map_singleton, List.foldl_cons, List.foldl_nil,
        find?_addSection, ih]
      by_cases same : String.ofList last.key = key
      · have more : valuesOf key (before ++ [last]) = valuesOf key before ++ [last.value] := by
          simp [valuesOf, same]
        rw [TagLine.toSection, if_pos same, oneMore_joined?, more, joined?, if_neg (by simp)]
      · have kept : valuesOf key (before ++ [last]) = valuesOf key before := by
          simp [valuesOf, same]
        rw [TagLine.toSection, if_neg same, kept]

theorem find?_tags (text : List Char) (key : String) :
    (tags text).find? key = joined? (valuesOf key (tagLines text)) := by
  have single : ∀ line ∈ text.splitOn '\n', '\n' ∉ line :=
    fun line member => notMem_of_mem_splitOn member
  rw [tags, sections_snd single]
  exact find?_foldl_addSection _ key

theorem valuesOf_ne_nil_iff (key : String) (lines : List Line) :
    valuesOf key (tagLinesOf lines) ≠ [] ↔
      ∃ line ∈ lines, opensSection line ∧ String.ofList (tagKey line) = key := by
  calc valuesOf key (tagLinesOf lines) ≠ []
      ↔ ∃ letters ∈ (tagLinesOf lines).map TagLine.key, String.ofList letters = key := by
        simp [valuesOf]
    _ ↔ ∃ letters ∈ (lines.filter opensSection).map tagKey, String.ofList letters = key := by
        rw [map_key_tagLinesOf]
    _ ↔ ∃ line ∈ lines, opensSection line ∧ String.ofList (tagKey line) = key := by
        simp [and_assoc]

/-- The tag lines divide a comment, the tags are their keys, and what a tag has are the values
of its tag lines: the text from the end of the key to the next tag line, folded into one line. -/
theorem tags_by_tag_lines (text : List Char) :
    text = upToTagLine (text.splitOn '\n') ++ (tagLines text).flatMap TagLine.written ∧
    (∀ key, key ∈ (tags text).entries.map Prod.fst ↔
      ∃ line ∈ text.splitOn '\n', opensSection line ∧ String.ofList (tagKey line) = key) ∧
    ∀ key, (tags text).find? key = joined? (valuesOf key (tagLines text)) := by
  refine ⟨?_, ?_, find?_tags text⟩
  · rw [tagLines, ← unlines_eq_tagLines, unlines_splitOn]
  · intro key
    rw [Dictionary.mem_keys_iff, find?_tags, joined?, ← valuesOf_ne_nil_iff, tagLines]
    simp

example : ["dev", "notice"].map (tags "@dev\n@dev a\n b\n@notice @dev\n@dev".toList).find? =
    [some "a  b\n", some "@dev"] := by decide +kernel

end Comment
end ContractTables
