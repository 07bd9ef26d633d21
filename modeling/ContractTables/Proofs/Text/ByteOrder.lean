import ContractTables.Text.Search

/-!
The order of texts by code points is the order of their UTF-8 bytes, for single texts and
for lists of them.
-/
namespace ContractTables.Text

def bytes (text : String) : List UInt8 := text.toUTF8.data.toList

theorem bytes_eq_flatMap (text : String) :
    bytes text = text.toList.flatMap String.utf8EncodeChar := by
  have same : text.toList.utf8Encode = text.toUTF8 := String.utf8Encode_toList
  rw [bytes, ← same, List.utf8Encode, List.toList_data_toByteArray]

theorem utf8EncodeChar_lt {c d : Char} (less : c < d) (first second : List UInt8) :
    String.utf8EncodeChar c ++ first < String.utf8EncodeChar d ++ second := by
  have below : c.val.toNat < d.val.toNat := less
  have bound : d.val.toNat < 0x110000 := by
    have valid : d.val.toNat < 0xd800 ∨ 0xdfff < d.val.toNat ∧ d.val.toNat < 0x110000 := d.valid
    omega
  have twice (n : Nat) : n / 4096 = n / 64 / 64 := by omega
  have thrice (n : Nat) : n / 262144 = n / 64 / 64 / 64 := by omega
  simp only [String.utf8EncodeChar, twice, thrice]
  generalize c.val.toNat = m at below
  generalize d.val.toNat = n at below bound
  -- One case for each two lengths. Of two lengths the shorter has the lesser lead byte; at
  -- one length the bytes are the digits to base 64.
  repeat' split
  any_goals omega
  all_goals
    simp only [List.cons_append, List.nil_append, List.cons_lt_cons_iff, UInt8.lt_iff_toNat_lt,
      ← UInt8.toNat_inj, UInt8.toNat_ofNat']
    omega

theorem flatMap_utf8EncodeChar_lt {first second : List Char} (less : first < second) :
    first.flatMap String.utf8EncodeChar < second.flatMap String.utf8EncodeChar := by
  induction first generalizing second with
  | nil =>
      cases second with
      | nil => exact absurd less (List.lt_irrefl [])
      | cons d ds =>
          have written : (d :: ds).flatMap String.utf8EncodeChar ≠ [] := by
            simp [String.utf8EncodeChar_ne_nil]
          obtain ⟨byte, rest, same⟩ := List.exists_cons_of_ne_nil written
          rw [same]
          exact List.nil_lt_cons byte rest
  | cons c cs ih =>
      cases second with
      | nil => exact absurd less (List.not_lt_nil _)
      | cons d ds =>
          rcases List.cons_lt_cons_iff.mp less with lower | ⟨rfl, rest⟩
          · exact utf8EncodeChar_lt lower _ _
          · exact List.append_left_lt (ih rest)

theorem bytes_lt {first second : String} (less : first < second) : bytes first < bytes second := by
  rw [bytes_eq_flatMap, bytes_eq_flatMap]
  exact flatMap_utf8EncodeChar_lt (String.lt_iff.mp less)

theorem map_bytes_lt {first second : List String} (less : first < second) :
    first.map bytes < second.map bytes :=
  List.map_lt (fun _ _ => bytes_lt) less

end ContractTables.Text
