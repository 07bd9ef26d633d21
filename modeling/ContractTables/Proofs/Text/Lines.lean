import ContractTables.Text.Line

/-!
Lines joined to a text. Lines without breaks are told from their text; the text of the
first line may be taken from the ones below it, and a mark may be put behind the last one.
-/
namespace ContractTables.Text

theorem unlines_cons (line : Line) {rest : List Line} (some : rest ≠ []) :
    unlines (line :: rest) = line ++ '\n' :: unlines rest := by
  obtain ⟨next, later, rfl⟩ := List.exists_cons_of_ne_nil some
  rw [unlines, List.intercalate_cons_cons, List.append_assoc]
  rfl

def below (lines : List Line) : List Char := lines.flatMap fun line => '\n' :: line

@[simp] theorem below_nil : below [] = [] := rfl

@[simp] theorem below_cons (line : Line) (rest : List Line) :
    below (line :: rest) = '\n' :: (line ++ below rest) := rfl

theorem unlines_eq_append_below (line : Line) (rest : List Line) :
    unlines (line :: rest) = line ++ below rest := by
  induction rest generalizing line with
  | nil => simp [unlines]
  | cons next rest ih => rw [unlines_cons line (List.cons_ne_nil next rest), ih, below_cons]

theorem unlines_append_first (front first : Line) (rest : List Line) :
    unlines ((front ++ first) :: rest) = front ++ unlines (first :: rest) := by
  rw [unlines_eq_append_below, unlines_eq_append_below, List.append_assoc]

theorem below_append (lines others : List Line) :
    below (lines ++ others) = below lines ++ below others := List.flatMap_append

theorem unlines_suffix (above : List Line) (first : Line) (rest : List Line) :
    unlines (first :: rest) <:+ unlines (above ++ first :: rest) := by
  induction above with
  | nil => exact List.suffix_refl _
  | cons line above ih =>
      rw [List.cons_append, unlines_cons line (by simp)]
      exact (ih.trans (List.suffix_cons _ _)).trans (List.suffix_append _ _)

/-- What stands between two texts belongs to the line where they meet. -/
theorem unlines_append_between (above : List Line) (front mark first : Line)
    (rest : List Line) :
    unlines (above ++ [front]) ++ mark ++ unlines (first :: rest) =
      unlines (above ++ (front ++ mark ++ first) :: rest) := by
  induction above with
  | nil =>
      rw [List.nil_append, List.nil_append, unlines_append_first]
      simp [unlines]
  | cons line above ih =>
      rw [List.cons_append, List.cons_append, unlines_cons line (by simp),
        unlines_cons line (by simp), ← ih]
      simp

def ended (mark : List Char) : List Line → List Line
  | [] => []
  | [last] => [last ++ mark]
  | line :: next :: rest => line :: ended mark (next :: rest)

theorem ended_ne_nil (mark : List Char) {lines : List Line} (some : lines ≠ []) :
    ended mark lines ≠ [] := by
  cases lines with
  | nil => exact absurd rfl some
  | cons line lines => cases lines <;> exact List.cons_ne_nil _ _

theorem unlines_ended (mark : List Char) {lines : List Line} (some : lines ≠ []) :
    unlines (ended mark lines) = unlines lines ++ mark := by
  induction lines with
  | nil => exact absurd rfl some
  | cons line lines ih =>
      cases lines with
      | nil => simp [ended, unlines]
      | cons next lines =>
          have some : next :: lines ≠ [] := List.cons_ne_nil next lines
          rw [ended, unlines_cons line (ended_ne_nil mark some), ih some, unlines_cons line some,
            List.append_assoc, List.cons_append]

theorem noBreak_of_mem_ended {mark : List Char} (noBreak : '\n' ∉ mark) {lines : List Line}
    (single : ∀ line ∈ lines, '\n' ∉ line) : ∀ line ∈ ended mark lines, '\n' ∉ line := by
  induction lines with
  | nil => exact single
  | cons line lines ih =>
      obtain ⟨first, others⟩ := List.forall_mem_cons.mp single
      cases lines with
      | nil => simpa [ended] using ⟨first, noBreak⟩
      | cons next lines => exact List.forall_mem_cons.mpr ⟨first, ih others⟩

theorem splitOn_unlines {lines : List Line} (some : lines ≠ [])
    (single : ∀ line ∈ lines, '\n' ∉ line) : (unlines lines).splitOn '\n' = lines :=
  List.splitOn_intercalate '\n' single some

/-- Lines are told from their joined text if none of them holds a line break. -/
theorem unlines_inj {lines others : List Line} (some : lines ≠ []) (otherSome : others ≠ [])
    (single : ∀ line ∈ lines, '\n' ∉ line) (otherSingle : ∀ line ∈ others, '\n' ∉ line)
    (same : unlines lines = unlines others) : lines = others := by
  rw [← splitOn_unlines some single, ← splitOn_unlines otherSome otherSingle, same]

theorem unlines_splitOn (text : List Char) : unlines (text.splitOn '\n') = text :=
  List.intercalate_splitOn '\n'

end ContractTables.Text
