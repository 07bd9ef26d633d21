import ContractTables.Json.Load
import ContractTables.Json.Write

/-!
Texts and whole numbers that were written as JSON read back. Each character of a text is
one piece of the string, whether it is escaped or not; a whole number is read up to its
last digit if nothing behind it continues a number, and keeps its value within 64 bits.
-/
namespace ContractTables.Json

/-! Texts. -/

theorem hexDigit?_digitChar (digit : Nat) (small : digit < 16) :
    hexDigit? (Nat.digitChar digit) = some digit := by
  revert digit
  decide

theorem unit?_control {c : Char} (control : c.toNat < 0x20) :
    unit? '0' '0' (Nat.digitChar (c.toNat / 16)) (Nat.digitChar (c.toNat % 16)) =
      some c.toNat := by
  have zero : hexDigit? '0' = some 0 := by decide
  have high := hexDigit?_digitChar (c.toNat / 16) (by omega)
  have low := hexDigit?_digitChar (c.toNat % 16) (by omega)
  simp only [unit?, zero, high, low, bind, Option.bind_some, Option.some.injEq]
  omega

/-- No control character is half of a character. -/
theorem decode?_unit {unit : Nat} (small : unit < 0x20) (pieces : List Piece) :
    decode? (.unit unit :: pieces) = (decode? pieces).map (Char.ofNat unit :: ·) := by
  have high : isHighHalf unit = false := by
    rw [isHighHalf, decide_eq_false (by omega), Bool.false_and]
  have low : isLowHalf unit = false := by
    rw [isLowHalf, decide_eq_false (by omega), Bool.false_and]
  cases pieces with
  | nil => simp [decode?, high, low]
  | cons piece rest => cases piece <;> simp [decode?, high, low]

/-- A character is escaped by one letter or by its code, or stands for itself. -/
theorem escape_cases (c : Char) :
    (∃ e, shortEscape? e = some c ∧ escape c = ['\\', e]) ∨
      (c.toNat < 0x20 ∧ escape c = ['\\', 'u', '0', '0', Nat.digitChar (c.toNat / 16),
        Nat.digitChar (c.toNat % 16)]) ∨
      ((c ≠ '"' ∧ c ≠ '\\' ∧ 0x20 ≤ c.toNat) ∧ escape c = [c]) := by
  unfold escape
  split
  · next same => exact .inl ⟨'"', congrArg some same.symm, rfl⟩
  split
  · next same => exact .inl ⟨'\\', congrArg some same.symm, rfl⟩
  split
  · next same => exact .inl ⟨'b', congrArg some same.symm, rfl⟩
  split
  · next same => exact .inl ⟨'t', congrArg some same.symm, rfl⟩
  split
  · next same => exact .inl ⟨'n', congrArg some same.symm, rfl⟩
  split
  · next same => exact .inl ⟨'f', congrArg some same.symm, rfl⟩
  split
  · next same => exact .inl ⟨'r', congrArg some same.symm, rfl⟩
  split
  · next control => exact .inr (.inl ⟨control, rfl⟩)
  · next notQuote notEscape _ _ _ _ _ printable =>
      exact .inr (.inr ⟨⟨notQuote, notEscape, Nat.not_lt.mp printable⟩, rfl⟩)

structure Spells (piece : Piece) (c : Char) : Prop where
  read : ∀ rest, readPieces? (escape c ++ rest) =
    (readPieces? rest).map fun (pieces, after) => (piece :: pieces, after)
  decode : ∀ pieces, decode? (piece :: pieces) = (decode? pieces).map (c :: ·)

theorem exists_spells (c : Char) : ∃ piece, Spells piece c := by
  rcases escape_cases c with ⟨e, found, escaped⟩ | ⟨control, escaped⟩ | ⟨plain, escaped⟩
  · refine ⟨.char c, ?_, fun pieces => rfl⟩
    intro rest
    rw [escaped]
    exact readPieces?_short found rest
  · refine ⟨.unit c.toNat, ?_, ?_⟩
    · intro rest
      simp only [escaped, List.cons_append, List.nil_append, readPieces?_unit,
        unit?_control control, Option.bind_some]
    · intro pieces
      rw [decode?_unit control, Char.ofNat_toNat]
  · refine ⟨.char c, ?_, fun pieces => rfl⟩
    intro rest
    rw [escaped]
    exact readPieces?_plain plain.1 plain.2.1 plain.2.2 rest

/-- A written text is read up to its closing quote and means what it meant. -/
theorem readPieces?_escape (text rest : List Char) :
    ∃ pieces, readPieces? (text.flatMap escape ++ '"' :: rest) = some (pieces, rest) ∧
      decode? pieces = some text := by
  induction text with
  | nil => exact ⟨[], by simp [readPieces?], rfl⟩
  | cons c text ih =>
      obtain ⟨pieces, read, decoded⟩ := ih
      obtain ⟨piece, spells⟩ := exists_spells c
      refine ⟨piece :: pieces, ?_, ?_⟩
      · rw [List.flatMap_cons, List.append_assoc, spells.read, read, Option.map_some]
      · rw [spells.decode, decoded, Option.map_some]

/-! Whole numbers. -/

def EndsNumeral (c : Char) : Prop := c.isDigit = false ∧ c ≠ '.' ∧ c ≠ 'e' ∧ c ≠ 'E'

instance (c : Char) : Decidable (EndsNumeral c) := inferInstanceAs (Decidable (_ ∧ _))

/-- Only zero itself is written with a zero at the front. -/
theorem toDigits_leading_zero (n : Nat) (rest : List Char)
    (zero : Nat.toDigits 10 n = '0' :: rest) : rest = [] := by
  induction n using Nat.strongRecOn generalizing rest with
  | ind n ih =>
      by_cases small : n < 10
      · rw [Nat.toDigits_of_lt_base small] at zero
        exact (List.cons.inj zero).2.symm
      · -- The digits before the last one are those of a smaller number, which is not zero.
        rw [Nat.toDigits_of_base_le (by decide) (Nat.not_lt.mp small)] at zero
        have value : Nat.ofDigitChars 10 (Nat.toDigits 10 (n / 10)) 0 = n / 10 :=
          Nat.ofDigitChars_ten_toDigits
        cases front : Nat.toDigits 10 (n / 10) with
        | nil => exact absurd front Nat.toDigits_ne_nil
        | cons first later =>
            rw [front, List.cons_append] at zero
            obtain ⟨rfl, _⟩ := List.cons.inj zero
            obtain rfl := ih (n / 10) (by omega) later front
            rw [front] at value
            have none : n / 10 = 0 := value.symm
            omega

theorem splitDigits_toDigits (n : Nat) {rest : List Char}
    (ends : ∀ c ∈ rest.head?, EndsNumeral c) :
    Numeral.splitDigits (Nat.toDigits 10 n ++ rest) = (Nat.toDigits 10 n, rest) := by
  have digits : ∀ c ∈ Nat.toDigits 10 n, c.isDigit := fun c member =>
    Nat.isDigit_of_mem_toDigits (by decide) (by decide) member
  have stops : rest.takeWhile Char.isDigit = [] ∧ rest.dropWhile Char.isDigit = rest := by
    cases rest with
    | nil => exact ⟨rfl, rfl⟩
    | cons c rest => simp [(ends c rfl).1]
  rw [Numeral.splitDigits, List.takeWhile_append_of_pos digits,
    List.dropWhile_append_of_pos digits, stops.1, stops.2, List.append_nil]

theorem readWhole?_toDigits (n : Nat) {rest : List Char}
    (ends : ∀ c ∈ rest.head?, EndsNumeral c) :
    Numeral.readWhole? (Nat.toDigits 10 n ++ rest) = some (Nat.toDigits 10 n, rest) := by
  rw [Numeral.readWhole?, splitDigits_toDigits n ends]
  split
  · next none => exact absurd (congrArg Prod.fst none) Nat.toDigits_ne_nil
  · next zero =>
      have leading := toDigits_leading_zero n _ (congrArg Prod.fst zero)
      exact absurd leading (List.cons_ne_nil _ _)
  · rfl

theorem readFraction?_of_ends {rest : List Char} (ends : ∀ c ∈ rest.head?, EndsNumeral c) :
    Numeral.readFraction? rest = some (none, rest) := by
  cases rest with
  | nil => rfl
  | cons c rest =>
      rw [Numeral.readFraction?]
      rintro later ⟨rfl, _⟩
      exact (ends '.' rfl).2.1 rfl

theorem readExponent?_of_ends {rest : List Char} (ends : ∀ c ∈ rest.head?, EndsNumeral c) :
    Numeral.readExponent? rest = some (none, rest) := by
  cases rest with
  | nil => rfl
  | cons c rest =>
      have other := (ends c rfl).2.2
      simp [Numeral.readExponent?, other]

theorem read?_toDigits (n : Nat) {rest : List Char} (ends : ∀ c ∈ rest.head?, EndsNumeral c) :
    Numeral.read? (Nat.toDigits 10 n ++ rest) =
        some (⟨false, Nat.toDigits 10 n, none, none⟩, rest) ∧
      Numeral.read? ('-' :: (Nat.toDigits 10 n ++ rest)) =
        some (⟨true, Nat.toDigits 10 n, none, none⟩, rest) := by
  have unsigned : ∀ later, Nat.toDigits 10 n ++ rest ≠ '-' :: later := by
    intro later same
    cases digits : Nat.toDigits 10 n with
    | nil => exact absurd digits Nat.toDigits_ne_nil
    | cons c more =>
        have digit : c.isDigit :=
          Nat.isDigit_of_mem_toDigits (by decide) (by decide) (digits ▸ List.mem_cons_self)
        rw [digits, List.cons_append] at same
        rw [(List.cons.inj same).1] at digit
        exact absurd digit (by decide)
  constructor
  · unfold Numeral.read?
    split
    next signed =>
      split at signed
      · next minus => exact absurd minus (unsigned _)
      · cases signed
        simp [readWhole?_toDigits n ends, readFraction?_of_ends ends, readExponent?_of_ends ends]
  · simp [Numeral.read?, readWhole?_toDigits n ends, readFraction?_of_ends ends,
      readExponent?_of_ends ends]

/-- A written whole number is read up to its last digit and keeps its value. -/
theorem read?_writeInt (value : Int) (least : -0x8000000000000000 ≤ value)
    (greatest : value ≤ maxWord) {rest : List Char} (ends : ∀ c ∈ rest.head?, EndsNumeral c) :
    ∃ numeral, Numeral.read? (writeInt value ++ rest) = some (numeral, rest) ∧
      numeral.value? = some (int value) := by
  cases value with
  | ofNat n =>
      refine ⟨_, (read?_toDigits n ends).1, ?_⟩
      have small : n ≤ maxWord := Int.ofNat_le.mp greatest
      simp [Numeral.value?, Numeral.int?, small]
  | negSucc n =>
      refine ⟨_, (read?_toDigits (n + 1) ends).2, ?_⟩
      have small : n + 1 ≤ 0x8000000000000000 := by omega
      simp [Numeral.value?, Numeral.int?, small]
      omega

end ContractTables.Json
