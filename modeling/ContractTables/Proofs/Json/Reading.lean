import ContractTables.Proofs.Json.Scalar
import ContractTables.Proofs.Json.Sorted
import ContractTables.Proofs.Json.Spacing

/-!
Written values read back, however they are spaced: every value of whole numbers of 64 bits
that does not nest too deep is read from its compact and from its indented form, with the
members of its objects sorted. A text of some length is read in twice as many steps, one for
each value and one for each item or member, because both take a character at least.
-/
namespace ContractTables.Json

/-! Values that are read as they were written. -/

inductive Fits : Nat → Json → Prop
  | null {depth : Nat} : Fits depth null
  | bool {depth : Nat} (value : Bool) : Fits depth (bool value)
  | int {depth : Nat} {value : Int} (least : -0x8000000000000000 ≤ value)
      (greatest : value ≤ maxWord) : Fits depth (int value)
  | string {depth : Nat} (value : String) : Fits depth (string value)
  | array {depth : Nat} {items : List Json} (inner : ∀ item ∈ items, Fits depth item) :
      Fits (depth + 1) (array items)
  | object {depth : Nat} {members : List (String × Json)}
      (inner : ∀ member ∈ members, Fits depth member.2) : Fits (depth + 1) (object members)

theorem writeInt_head (value : Int) :
    ∃ c text, writeInt value = c :: text ∧ (c.isDigit ∨ c = '-') := by
  cases value with
  | negSucc n => exact ⟨'-', _, rfl, .inr rfl⟩
  | ofNat n =>
      rw [writeInt]
      cases digits : Nat.toDigits 10 n with
      | nil => exact absurd digits Nat.toDigits_ne_nil
      | cons c text =>
          have member : c ∈ Nat.toDigits 10 n := digits ▸ List.mem_cons_self
          exact ⟨c, text, rfl, .inl (Nat.isDigit_of_mem_toDigits (by decide) (by decide) member)⟩

/-- No value starts with space or with a mark that closes an array or an object. -/
def Opening (c : Char) : Prop := isSpace c = false ∧ c ≠ ']' ∧ c ≠ '}'

instance (c : Char) : Decidable (Opening c) := inferInstanceAs (Decidable (_ ∧ _))

def Opens (text : List Char) : Prop := ∃ c rest, text = c :: rest ∧ Opening c

theorem Opens.skipSpace {text : List Char} (opens : Opens text) {space : List Char}
    (blank : Blank space) (rest : List Char) : Opens (skipSpace (space ++ (text ++ rest))) := by
  obtain ⟨c, later, rfl, opening⟩ := opens
  rw [List.cons_append, skipSpace_append_mark blank opening.1]
  exact ⟨c, later ++ rest, rfl, opening⟩

theorem opening_of_numeral {c : Char} (start : c.isDigit ∨ c = '-') : Opening c := by
  refine ⟨Bool.eq_false_iff.mpr fun space => ?_, ?_, ?_⟩
  · simp only [isSpace, Bool.or_eq_true, decide_eq_true_eq] at space
    rcases space with ((rfl | rfl) | rfl) | rfl <;> revert start <;> decide
  all_goals
    rintro rfl
    revert start
    decide

theorem Fits.opens {depth : Nat} {value : Json} (fits : Fits depth value) (s : Spacing)
    (level : Nat) : Opens (s.write level value) := by
  cases fits with
  | null => exact ⟨'n', _, rfl, by decide⟩
  | bool value => cases value <;> exact ⟨_, _, rfl, by decide⟩
  | int =>
      obtain ⟨c, text, written, start⟩ := writeInt_head _
      exact ⟨c, text, by rw [Spacing.write, written], opening_of_numeral start⟩
  | string value => exact ⟨'"', _, rfl, by decide⟩
  | @array _ items => cases items <;> exact ⟨'[', _, rfl, by decide⟩
  | @object _ members => cases members <;> exact ⟨'\x7b', _, rfl, by decide⟩

namespace Written

variable {steps depth : Nat}

theorem readValue?_string (rest : List Char) :
    readValue? (steps + 1) depth ('"' :: rest) =
      (readPieces? rest).map fun (pieces, after) => (string pieces, after) := by
  rw [readValue?, skipSpace_of_mark rfl]
  rfl

theorem readValue?_numeral {c : Char} (start : c.isDigit ∨ c = '-') (rest : List Char) :
    readValue? (steps + 1) depth (c :: rest) =
      (Numeral.read? (c :: rest)).map fun (numeral, after) => (number numeral, after) := by
  rw [readValue?, skipSpace_of_mark (opening_of_numeral start).1]
  split
  case h_7 => rfl
  all_goals
    next same =>
      cases same
      exact absurd start (by decide)

theorem readValue?_items {text : List Char} (opens : Opens (skipSpace text)) :
    readValue? (steps + 1) (depth + 1) ('[' :: text) =
      (readItems? steps depth text).map fun (items, after) => (array items, after) := by
  obtain ⟨c, rest, first, opening⟩ := opens
  rw [readValue?, skipSpace_of_mark rfl, ← readItems?_skipSpace]
  simp only [first]
  split
  · next none => cases none
  · next close =>
      cases close
      exact absurd rfl opening.2.1
  · next same _ =>
      cases same
      rfl

theorem readValue?_members {text : List Char} (opens : Opens (skipSpace text)) :
    readValue? (steps + 1) (depth + 1) ('{' :: text) =
      (readMembers? steps depth text).map fun (members, after) => (object members, after) := by
  obtain ⟨c, rest, first, opening⟩ := opens
  rw [readValue?, skipSpace_of_mark rfl, ← readMembers?_skipSpace]
  simp only [first]
  split
  · next none => cases none
  · next close =>
      cases close
      exact absurd rfl opening.2.2
  · next same _ =>
      cases same
      rfl

section Steps

variable {text after rest next : List Char} {value : Written}

theorem readItems?_last (read : readValue? steps depth text = some (value, after))
    (close : skipSpace after = ']' :: rest) :
    readItems? (steps + 1) depth text = some ([value], rest) := by
  rw [readItems?, read]
  simp only [Option.bind_eq_bind, Option.bind_some, close]

theorem readItems?_next (read : readValue? steps depth text = some (value, after))
    (more : skipSpace after = ',' :: next) {items : List Written}
    (others : readItems? steps depth next = some (items, rest)) :
    readItems? (steps + 1) depth text = some (value :: items, rest) := by
  rw [readItems?, read]
  simp only [Option.bind_eq_bind, Option.bind_some, more, others]

/-- The key and the value of a member are read; what follows says whether there are more. -/
theorem readMembers?_member (key : String)
    (read : readValue? steps depth text = some (value, after)) :
    ∃ pieces, decodeText? pieces = some key ∧
      (∀ rest, skipSpace after = '}' :: rest →
        readMembers? (steps + 1) depth (writeString key ++ ':' :: text) =
          some ([(pieces, value)], rest)) ∧
      ∀ next members rest, skipSpace after = ',' :: next →
        readMembers? steps depth next = some (members, rest) →
        readMembers? (steps + 1) depth (writeString key ++ ':' :: text) =
          some ((pieces, value) :: members, rest) := by
  obtain ⟨pieces, name, decoded⟩ := readPieces?_escape key.toList (':' :: text)
  have opening : writeString key ++ ':' :: text =
      '"' :: (key.toList.flatMap escape ++ '"' :: ':' :: text) := by
    rw [writeString, List.append_assoc, List.singleton_append, List.cons_append]
  have colon : skipSpace (':' :: text) = ':' :: text := skipSpace_of_mark rfl text
  refine ⟨pieces, by rw [decodeText?, decoded, Option.map_some, String.ofList_toList], ?_, ?_⟩
  · intro rest close
    rw [opening, readMembers?, skipSpace_of_mark rfl]
    simp only [name, Option.bind_eq_bind, Option.bind_some, colon, read, close]
  · intro next members rest more others
    rw [opening, readMembers?, skipSpace_of_mark rfl]
    simp only [name, Option.bind_eq_bind, Option.bind_some, colon, read, more, others]

end Steps
end Written

def ReadsBack (depth : Nat) (value : Json) : Prop :=
  ∀ (s : Spacing) (level steps : Nat) (rest : List Char),
    2 * (s.write level value).length ≤ steps → (∀ c ∈ rest.head?, EndsNumeral c) →
      ∃ read, Written.readValue? steps depth (s.write level value ++ rest) = some (read, rest) ∧
        read.value? = some value.sorted

theorem ends_append {space : List Char} (blank : Blank space) (mark : Char)
    (ends : EndsNumeral mark) (rest : List Char) :
    ∀ c ∈ (space ++ mark :: rest).head?, EndsNumeral c := by
  intro c first
  cases space with
  | nil =>
      obtain rfl : mark = c := Option.some.inj first
      exact ends
  | cons d later =>
      obtain rfl : d = c := Option.some.inj first
      have space := blank d List.mem_cons_self
      simp only [isSpace, Bool.or_eq_true, decide_eq_true_eq] at space
      rcases space with ((rfl | rfl) | rfl) | rfl <;> decide

section Lists

variable (s : Spacing) (level : Nat) {depth : Nat} {space : List Char}

theorem readItems?_writeItems (blank : Blank space) {items : List Json} (nonempty : items ≠ [])
    (each : ∀ item ∈ items, ReadsBack depth item) {steps : Nat}
    (enough : 2 * (s.writeItems level items).length < steps) (rest : List Char) :
    ∃ read, Written.readItems? steps depth (s.writeItems level items ++ (space ++ ']' :: rest)) =
        some (read, rest) ∧
      Written.values? read = some (items.map sorted) := by
  induction items generalizing steps with
  | nil => exact absurd rfl nonempty
  | cons item later ih =>
      obtain ⟨here, each⟩ := List.forall_mem_cons.mp each
      obtain ⟨steps, rfl⟩ := Nat.exists_eq_add_one_of_ne_zero (Nat.ne_zero_of_lt enough)
      cases later with
      | nil =>
          rw [s.writeItems_singleton, List.length_append] at enough
          have ends := ends_append blank ']' (by decide) rest
          obtain ⟨value, read, means⟩ := here s level steps _ (by omega) ends
          refine ⟨[value], ?_, by simp [Written.values?, means]⟩
          rw [s.writeItems_singleton, List.append_assoc,
            Written.readItems?_append (s.line_blank level)]
          exact Written.readItems?_last read (skipSpace_append_mark blank rfl rest)
      | cons next later =>
          have more : next :: later ≠ [] := List.cons_ne_nil next later
          rw [s.writeItems_cons level item more, List.length_append, List.length_append,
            List.length_cons] at enough
          -- The item leaves a comma behind, which pays for the step to the next one.
          have shorter : 2 * (s.writeItems level (next :: later)).length < steps := by omega
          obtain ⟨others, readOthers, meansOthers⟩ := ih more each shorter
          have ends := ends_append (List.forall_mem_nil _) ',' (by decide)
            (s.writeItems level (next :: later) ++ (space ++ ']' :: rest))
          obtain ⟨value, read, means⟩ := here s level steps _ (by omega) ends
          refine ⟨value :: others, ?_, by simp [Written.values?, means, meansOthers]⟩
          rw [s.writeItems_cons level item more, List.append_assoc, List.append_assoc,
            Written.readItems?_append (s.line_blank level), List.cons_append]
          exact Written.readItems?_next read (skipSpace_of_mark rfl _) readOthers

theorem readMembers?_writeMembers (blank : Blank space) {members : List (String × Json)}
    (nonempty : members ≠ []) (each : ∀ member ∈ members, ReadsBack depth member.2) {steps : Nat}
    (enough : 2 * (s.writeMembers level members).length < steps) (rest : List Char) :
    ∃ read,
      Written.readMembers? steps depth (s.writeMembers level members ++ (space ++ '}' :: rest)) =
        some (read, rest) ∧
      ∀ found, Written.members? read found = some (sortedMembers members found) := by
  induction members generalizing steps with
  | nil => exact absurd rfl nonempty
  | cons member later ih =>
      obtain ⟨key, item⟩ := member
      obtain ⟨here, each⟩ : ReadsBack depth item ∧ ∀ member ∈ later, ReadsBack depth member.2 :=
        List.forall_mem_cons.mp each
      obtain ⟨steps, rfl⟩ := Nat.exists_eq_add_one_of_ne_zero (Nat.ne_zero_of_lt enough)
      cases later with
      | nil =>
          rw [s.writeMembers_singleton] at enough
          simp only [List.length_append, List.length_cons] at enough
          have ends := ends_append blank '}' (by decide) rest
          obtain ⟨value, read, means⟩ := here s level steps _ (by omega) ends
          rw [← Written.readValue?_append s.gap_blank] at read
          obtain ⟨pieces, decoded, last, _⟩ := Written.readMembers?_member key read
          refine ⟨[(pieces, value)], ?_, fun found => ?_⟩
          · rw [s.writeMembers_singleton, List.append_assoc,
              Written.readMembers?_append (s.line_blank level), List.append_assoc,
              List.cons_append, List.append_assoc]
            exact last rest (skipSpace_append_mark blank rfl rest)
          · simp [Written.members?, decoded, means, sortedMembers]
      | cons next later =>
          have more : next :: later ≠ [] := List.cons_ne_nil next later
          rw [s.writeMembers_cons level key item more] at enough
          simp only [List.length_append, List.length_cons] at enough
          have shorter : 2 * (s.writeMembers level (next :: later)).length < steps := by omega
          obtain ⟨others, readOthers, meansOthers⟩ := ih more each shorter
          have ends := ends_append (List.forall_mem_nil _) ',' (by decide)
            (s.writeMembers level (next :: later) ++ (space ++ '}' :: rest))
          obtain ⟨value, read, means⟩ := here s level steps _ (by omega) ends
          -- The value is read behind the gap as well as right at its start.
          rw [← Written.readValue?_append s.gap_blank] at read
          obtain ⟨pieces, decoded, _, step⟩ := Written.readMembers?_member key read
          refine ⟨(pieces, value) :: others, ?_, fun found => ?_⟩
          · rw [s.writeMembers_cons level key item more, List.append_assoc,
              Written.readMembers?_append (s.line_blank level)]
            simp only [List.append_assoc, List.cons_append]
            exact step _ others rest (skipSpace_of_mark rfl _) readOthers
          · rw [sortedMembers, Written.members?, decoded, means]
            exact meansOthers _

theorem opens_writeItems {items : List Json} (nonempty : items ≠ [])
    (each : ∀ item ∈ items, ∀ level, Opens (s.write level item)) (rest : List Char) :
    Opens (skipSpace (s.writeItems level items ++ rest)) := by
  cases items with
  | nil => exact absurd rfl nonempty
  | cons item later =>
      have opens := each item List.mem_cons_self level
      cases later with
      | nil =>
          rw [s.writeItems_singleton, List.append_assoc]
          exact opens.skipSpace (s.line_blank level) rest
      | cons next later =>
          rw [s.writeItems_cons level item (List.cons_ne_nil next later), List.append_assoc,
            List.append_assoc]
          exact opens.skipSpace (s.line_blank level) _

theorem opens_writeMembers {members : List (String × Json)} (nonempty : members ≠ [])
    (rest : List Char) : Opens (skipSpace (s.writeMembers level members ++ rest)) := by
  cases members with
  | nil => exact absurd rfl nonempty
  | cons member later =>
      have opens : Opens (writeString member.1) := ⟨'"', _, rfl, by decide⟩
      cases later with
      | nil =>
          rw [s.writeMembers_singleton, List.append_assoc, List.append_assoc]
          exact opens.skipSpace (s.line_blank level) _
      | cons next later =>
          rw [s.writeMembers_cons level _ _ (List.cons_ne_nil next later), List.append_assoc,
            List.append_assoc]
          exact opens.skipSpace (s.line_blank level) _

end Lists

/-! One case for each kind of value. -/

/-- No value has an empty text, so there is always a first step. -/
theorem readsBack_of_steps {depth : Nat} {value : Json}
    (opens : ∀ (s : Spacing) level, Opens (s.write level value))
    (each : ∀ (s : Spacing) (level steps : Nat) (rest : List Char),
      2 * (s.write level value).length ≤ steps + 1 → (∀ c ∈ rest.head?, EndsNumeral c) →
        ∃ read,
          Written.readValue? (steps + 1) depth (s.write level value ++ rest) = some (read, rest) ∧
          read.value? = some value.sorted) : ReadsBack depth value := by
  intro s level steps rest enough ends
  cases steps with
  | zero =>
      -- A value has a first character, so its text allows two steps at least.
      obtain ⟨c, text, written, _⟩ := opens s level
      rw [written, List.length_cons] at enough
      omega
  | succ steps => exact each s level steps rest enough ends

theorem readsBack_null {depth : Nat} : ReadsBack depth null := by
  have fits : Fits depth null := .null
  apply readsBack_of_steps fits.opens
  intro s level steps rest _ _
  refine ⟨.null, ?_, rfl⟩
  rw [Spacing.write, Written.readValue?]
  rfl

theorem readsBack_bool {depth : Nat} (value : Bool) : ReadsBack depth (bool value) := by
  have fits : Fits depth (bool value) := .bool value
  apply readsBack_of_steps fits.opens
  intro s level steps rest _ _
  refine ⟨.bool value, ?_, rfl⟩
  rw [Spacing.write, Written.readValue?]
  cases value <;> rfl

theorem readsBack_int {depth : Nat} {value : Int} (least : -0x8000000000000000 ≤ value)
    (greatest : value ≤ maxWord) : ReadsBack depth (int value) := by
  have fits : Fits depth (int value) := .int least greatest
  apply readsBack_of_steps fits.opens
  intro s level steps rest _ ends
  obtain ⟨numeral, read, means⟩ := read?_writeInt value least greatest ends
  obtain ⟨c, text, written, start⟩ := writeInt_head value
  refine ⟨.number numeral, ?_, by rw [Written.value?, means]; rfl⟩
  rw [written] at read
  rw [Spacing.write, written, List.cons_append, Written.readValue?_numeral start,
    ← List.cons_append, read]
  rfl

theorem readsBack_string {depth : Nat} (value : String) : ReadsBack depth (string value) := by
  have fits : Fits depth (string value) := .string value
  apply readsBack_of_steps fits.opens
  intro s level steps rest _ _
  obtain ⟨pieces, read, decoded⟩ := readPieces?_escape value.toList rest
  refine ⟨.string pieces, ?_, ?_⟩
  · rw [Spacing.write, writeString, List.append_assoc, List.cons_append,
      Written.readValue?_string, List.singleton_append, read]
    rfl
  · rw [Written.value?, decodeText?, decoded, Option.map_some, Option.map_some,
      String.ofList_toList]
    rfl

theorem readsBack_array {depth : Nat} {items : List Json}
    (inner : ∀ item ∈ items, Fits depth item) (each : ∀ item ∈ items, ReadsBack depth item) :
    ReadsBack (depth + 1) (array items) := by
  apply readsBack_of_steps (Fits.array inner).opens
  intro s level steps rest enough _
  by_cases empty : items = []
  · subst empty
    refine ⟨.array [], ?_, rfl⟩
    rw [Spacing.write, Written.readValue?]
    rfl
  · rw [s.write_array level empty, List.length_cons, List.length_append] at enough
    have shorter : 2 * (s.writeItems (level + 1) items).length < steps := by omega
    obtain ⟨read, found, means⟩ :=
      readItems?_writeItems s (level + 1) (s.line_blank level) empty each shorter rest
    refine ⟨.array read, ?_, ?_⟩
    · rw [s.write_array level empty, List.cons_append, List.append_assoc, List.append_assoc,
        List.singleton_append, Written.readValue?_items, found]
      · rfl
      · exact opens_writeItems s (level + 1) empty
          (fun item member => (inner item member).opens s) _
    · rw [Written.value?, means, sorted, sortedItems_eq_map]
      rfl

theorem readsBack_object {depth : Nat} {members : List (String × Json)}
    (inner : ∀ member ∈ members, Fits depth member.2)
    (each : ∀ member ∈ members, ReadsBack depth member.2) :
    ReadsBack (depth + 1) (object members) := by
  apply readsBack_of_steps (Fits.object inner).opens
  intro s level steps rest enough _
  by_cases empty : members = []
  · subst empty
    refine ⟨.object [], ?_, rfl⟩
    rw [Spacing.write, Written.readValue?]
    rfl
  · rw [s.write_object level empty, List.length_cons, List.length_append] at enough
    have shorter : 2 * (s.writeMembers (level + 1) members).length < steps := by omega
    obtain ⟨read, found, means⟩ :=
      readMembers?_writeMembers s (level + 1) (s.line_blank level) empty each shorter rest
    refine ⟨.object read, ?_, ?_⟩
    · rw [s.write_object level empty, List.cons_append, List.append_assoc, List.append_assoc,
        List.singleton_append, Written.readValue?_members, found]
      · rfl
      · exact opens_writeMembers s (level + 1) empty _
    · rw [Written.value?, means [], sorted]
      rfl

/-- Every value that fits reads back, because its parts do. -/
theorem Fits.readsBack {depth : Nat} {value : Json} (fits : Fits depth value) :
    ReadsBack depth value := by
  induction fits with
  | null => exact readsBack_null
  | bool value => exact readsBack_bool value
  | int least greatest => exact readsBack_int least greatest
  | string value => exact readsBack_string value
  | array inner ih => exact readsBack_array inner ih
  | object inner ih => exact readsBack_object inner ih

/-! Whole documents. -/

theorem load?_write (s : Spacing) {value : Json} (fits : Fits maxDepth value) :
    load? (s.write 0 value) = some value.sorted := by
  obtain ⟨read, found, means⟩ := fits.readsBack s 0 (2 * (s.write 0 value).length + 2) []
    (Nat.le_add_right _ _) (fun c first => nomatch first)
  rw [List.append_nil] at found
  rw [load?, Written.read?, found]
  exact means

theorem load?_compact {value : Json} (fits : Fits maxDepth value) :
    load? value.compact = some value.sorted := by
  rw [← Spacing.flat_write 0]
  exact load?_write Spacing.flat fits

theorem load?_indented {value : Json} (fits : Fits maxDepth value) :
    load? (value.indented 0) = some value.sorted := by
  rw [← Spacing.lines_write]
  exact load?_write Spacing.lines fits

end ContractTables.Json
