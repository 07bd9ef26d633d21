import ContractTables.Path

/-!
The text of a path and its pieces. Nothing of the text gets lost between its slashes, the
text of an entry of a directory has one more piece, and the name and the stem of a path
are found at its end.
-/
namespace ContractTables

theorem notMem_of_mem_splitOn {α : Type} [BEq α] [LawfulBEq α] {mark : α} {list piece : List α}
    (member : piece ∈ list.splitOn mark) : mark ∉ piece := by
  induction list generalizing piece with
  | nil =>
      rw [List.splitOn_nil] at member
      cases List.mem_singleton.mp member
      exact List.not_mem_nil
  | cons first rest ih =>
      rw [List.splitOn_cons_eq_if_modifyHead] at member
      split at member
      · rcases List.mem_cons.mp member with rfl | later
        · exact List.not_mem_nil
        · exact ih later
      · next other =>
          obtain ⟨head, tail, pieces⟩ := List.exists_cons_of_ne_nil (List.splitOn_ne_nil mark rest)
          rw [pieces, List.modifyHead_cons] at member
          rw [pieces] at ih
          rcases List.mem_cons.mp member with rfl | later
          · have inHead := ih List.mem_cons_self
            simpa [inHead] using fun same => other (beq_iff_eq.mpr same.symm)
          · exact ih (List.mem_cons_of_mem _ later)

namespace Path

def between (text : String) : List String := (text.toList.splitOn '/').map String.ofList

def ofBetween : List String → Path
  | "" :: piece :: rest => ⟨.root, piece :: rest⟩
  | "." :: rest => ⟨.current, rest⟩
  | pieces => ⟨.none, pieces⟩

theorem parse_eq_ofBetween (text : String) : parse text = ofBetween (between text) := rfl

theorem between_append_slash (front back : String) :
    between (front ++ "/" ++ back) = between front ++ between back := by
  simp [between, String.toList_append, List.splitOn_append_cons_self]

theorem between_name {name : String} (noSlash : '/' ∉ name.toList) : between name = [name] := by
  rw [between, List.splitOn_eq_singleton noSlash, List.map_singleton, String.ofList_toList]

theorem between_ne_nil (text : String) : between text ≠ [] :=
  mt List.map_eq_nil_iff.mp (List.splitOn_ne_nil '/' text.toList)

theorem intercalate_between (text : String) : "/".intercalate (between text) = text := by
  apply String.toList_inj.mp
  simp [String.toList_intercalate, between, Function.comp_def, List.intercalate_splitOn]

/-- One more piece is one more step. -/
theorem ofBetween_append {pieces : List String} (some : pieces ≠ []) :
    ∃ lead steps, (∀ piece, ofBetween (pieces ++ [piece]) = ⟨lead, steps ++ [piece]⟩) ∧
      (pieces ≠ [""] → ofBetween pieces = ⟨lead, steps⟩) := by
  obtain ⟨first, rest, rfl⟩ := List.exists_cons_of_ne_nil some
  by_cases root : first = ""
  · subst root
    refine ⟨.root, rest, ?_, ?_⟩
    · intro piece
      cases rest <;> rfl
    · intro filled
      cases rest with
      | nil => exact absurd rfl filled
      | cons second rest => rfl
  · by_cases current : first = "."
    · subst current
      exact ⟨.current, rest, fun _ => rfl, fun _ => rfl⟩
    · exact ⟨.none, first :: rest, fun piece => by simp [ofBetween, root, current],
        fun _ => by simp [ofBetween, root, current]⟩

/-- The text of an entry is that of its directory with one more step, in place of a slash at
the end of the directory if there is one. -/
theorem parse_entry {directory : String} (filled : directory ≠ "") :
    ∃ lead steps,
      (∀ name, '/' ∉ name.toList → parse (entry directory name) = ⟨lead, steps ++ [name]⟩) ∧
        (parse directory = ⟨lead, steps⟩ ∨ parse directory = ⟨lead, steps ++ [""]⟩) := by
  have appended (base name : String) (noSlash : '/' ∉ name.toList) :
      between (base ++ "/" ++ name) = between base ++ [name] := by
    rw [between_append_slash, between_name noSlash]
  by_cases slash : directory.toList.getLast? = some '/'
  · -- The slash is the one that divides the name from what stands before it.
    obtain ⟨letters, ends⟩ := List.getLast?_eq_some_iff.mp slash
    have base : directory = String.ofList letters ++ "/" := by
      apply String.toList_inj.mp
      rw [ends, String.toList_append, String.toList_ofList]
      rfl
    obtain ⟨lead, steps, longer, _⟩ := ofBetween_append (between_ne_nil (String.ofList letters))
    refine ⟨lead, steps, ?_, .inr ?_⟩
    · intro name noSlash
      have joined : entry directory name = directory ++ name := by simp [entry, slash]
      rw [joined, base, parse_eq_ofBetween, appended _ _ noSlash, longer]
    · have split := appended (String.ofList letters) "" (by simp)
      rw [String.append_empty, ← base] at split
      rw [parse_eq_ofBetween, split, longer]
  · obtain ⟨lead, steps, longer, same⟩ := ofBetween_append (between_ne_nil directory)
    refine ⟨lead, steps, ?_, .inl (same ?_)⟩
    · intro name noSlash
      have joined : entry directory name = directory ++ "/" ++ name := by
        unfold entry
        split
        · next none => exact absurd (String.toList_eq_nil_iff.mp (List.getLast?_eq_none_iff.mp none)) filled
        · next ends => exact absurd ends slash
        · rfl
      rw [joined, parse_eq_ofBetween, appended _ _ noSlash, longer]
    · intro empty
      have whole := intercalate_between directory
      rw [empty] at whole
      exact filled whole.symm

theorem text_ofBetween (pieces : List String) : (ofBetween pieces).text = "/".intercalate pieces := by
  unfold ofBetween
  split
  · simp [text]
  · rfl
  · rfl

theorem text_parse (text : String) : (parse text).text = text := by
  rw [parse_eq_ofBetween, text_ofBetween, intercalate_between]

theorem noSlash_of_mem_between {text piece : String} (member : piece ∈ between text) :
    '/' ∉ piece.toList := by
  obtain ⟨letters, inside, rfl⟩ := List.mem_map.mp member
  rw [String.toList_ofList]
  exact notMem_of_mem_splitOn inside

theorem mem_of_mem_ofBetween {pieces : List String} {piece : String}
    (member : piece ∈ (ofBetween pieces).pieces) : piece ∈ pieces := by
  unfold ofBetween at member
  split at member
  · exact List.mem_cons_of_mem _ member
  · exact List.mem_cons_of_mem _ member
  · exact member

theorem dropIdleEnd_concat (pieces : List String) {name : String} (active : ¬ isIdle name) :
    dropIdleEnd (pieces ++ [name]) = pieces ++ [name] := by
  rw [dropIdleEnd, List.reverse_concat, List.dropWhile_cons_of_neg active, List.reverse_cons,
    List.reverse_reverse]

theorem name?_concat (lead : Lead) (pieces : List String) {name : String}
    (named : ¬ isIdle name ∧ name ≠ "..") :
    (⟨lead, pieces ++ [name]⟩ : Path).name? = some name := by
  rw [name?, dropIdleEnd_concat pieces named.1, List.getLast?_concat, Option.filter_some,
    if_pos (decide_eq_true named.2)]

/-- The text of an entry ends in the name of the entry. -/
theorem name?_parse_entry (directory : String) {name : String}
    (named : ¬ isIdle name ∧ name ≠ "..") (noSlash : '/' ∉ name.toList) :
    (parse (entry directory name)).name? = some name := by
  by_cases filled : directory = ""
  · subst filled
    have alone : entry "" name = name := by simp [entry]
    have idle : name ≠ "" ∧ name ≠ "." := by simpa [isIdle] using named.1
    have parsed : parse name = ⟨.none, [] ++ [name]⟩ := by
      simp [parse_eq_ofBetween, between_name noSlash, ofBetween, idle]
    rw [alone, parsed, name?_concat _ _ named]
  · obtain ⟨lead, steps, parsed, _⟩ := parse_entry filled
    rw [parsed name noSlash, name?_concat _ _ named]

/-- No dots stand for a longer text. -/
theorem named_of_length {name : String} (long : 2 < name.length) :
    ¬ isIdle name ∧ name ≠ ".." := by
  have differs (short : String) (within : short.length ≤ 2) : name ≠ short := by
    rintro rfl
    omega
  refine ⟨?_, differs ".." (by decide)⟩
  simp [isIdle, differs "" (by decide), differs "." (by decide)]

/-- A name is one of the pieces of its path. -/
theorem mem_of_name? {path : Path} {name : String} (named : path.name? = some name) :
    name ∈ path.pieces := by
  have last := List.mem_of_getLast? (Option.mem_filter_iff.mp named).1
  rw [dropIdleEnd, List.mem_reverse] at last
  exact List.mem_reverse.mp ((List.dropWhile_sublist _).subset last)

theorem noSlash_of_name? {text name : String} (named : (parse text).name? = some name) :
    '/' ∉ name.toList :=
  noSlash_of_mem_between (mem_of_mem_ofBetween (mem_of_name? named))

/-- The stem is the front of the name. -/
theorem exists_stem? {path : Path} {name : String} (named : path.name? = some name) :
    ∃ stem, path.stem? = some stem ∧ stem.toList <+: name.toList := by
  rw [stem?, named]
  refine ⟨_, rfl, ?_⟩
  dsimp only
  split
  · exact List.prefix_refl _
  · exact List.prefix_refl _
  · next stem extension _ cut =>
      rw [String.toList_ofList, Text.cutLast?_eq_append cut, List.append_assoc]
      exact List.prefix_append ..

/-- A stem is what stands before the last dot. -/
theorem stem?_of_extension {path : Path} {base extension : String} (filled : base ≠ "")
    (noDot : '.' ∉ extension.toList) (named : path.name? = some (base ++ "." ++ extension)) :
    path.stem? = some base := by
  have cut : Text.cutLast? ['.'] (base ++ "." ++ extension).toList =
      some (base.toList, extension.toList) := by
    rw [String.toList_append, String.toList_append, List.append_assoc]
    exact Text.cutLast?_append base.toList noDot
  have stem : base.toList ≠ [] := mt String.toList_eq_nil_iff.mp filled
  obtain ⟨c, rest, letters⟩ := List.exists_cons_of_ne_nil stem
  rw [stem?, named, Option.map_some, cut, letters]
  have whole : String.ofList (c :: rest) = base := letters ▸ String.ofList_toList
  exact congrArg some whole

end Path
end ContractTables
