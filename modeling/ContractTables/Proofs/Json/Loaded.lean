import ContractTables.Proofs.Json.Reading

/-!
What reading gives. The value of a document nests as deep as is read and no deeper, its whole
numbers have 64 bits and its members stand by ascending key, and the same is true of every
value inside of it. So a part of a document that holds no binary64 number is not changed by
writing it and reading it again.
-/
namespace ContractTables.Json

/-- What is read: like values that fit, but with binary64 numbers and with sorted members. -/
inductive Loaded : Nat → Json → Prop
  | null {depth : Nat} : Loaded depth null
  | bool {depth : Nat} (value : Bool) : Loaded depth (bool value)
  | int {depth : Nat} {value : Int} (least : -0x8000000000000000 ≤ value)
      (greatest : value ≤ maxWord) : Loaded depth (int value)
  | float {depth : Nat} (value : Decimal.Binary64) : Loaded depth (float value)
  | string {depth : Nat} (value : String) : Loaded depth (string value)
  | array {depth : Nat} {items : List Json} (inner : ∀ item ∈ items, Loaded depth item) :
      Loaded (depth + 1) (array items)
  | object {depth : Nat} {members : List (String × Json)} (ascending : Ascending members)
      (inner : ∀ member ∈ members, Loaded depth member.2) : Loaded (depth + 1) (object members)

/-! Values of documents. -/

namespace Written

def Loads (depth : Nat) (written : Written) : Prop :=
  ∀ value, written.value? = some value → Loaded depth value

theorem loads_number {depth : Nat} (numeral : Numeral) : Loads depth (number numeral) := by
  intro value means
  rw [value?, Numeral.value?] at means
  split at means
  · next whole =>
      cases means
      rw [Numeral.int?] at whole
      split at whole
      · split at whole
        · next small =>
            cases whole
            exact .int (by omega) (Int.ofNat_le.mpr small)
        · cases whole
      · split at whole
        · next range =>
            cases whole
            simp only [Bool.and_eq_true, decide_eq_true_eq] at range
            exact .int (by omega) (by omega)
        · cases whole
      · cases whole
  · obtain ⟨number, _, rfl⟩ := Option.map_eq_some_iff.mp means
    exact .float number

theorem loads_string {depth : Nat} (pieces : List Piece) : Loads depth (string pieces) := by
  intro value means
  obtain ⟨text, _, rfl⟩ := Option.map_eq_some_iff.mp means
  exact .string text

theorem exists_of_mem_values? {items : List Written} {values : List Json}
    (read : values? items = some values) {value : Json} (member : value ∈ values) :
    ∃ item ∈ items, item.value? = some value := by
  induction items generalizing values with
  | nil =>
      cases read
      cases member
  | cons item rest ih =>
      obtain ⟨first, means, read⟩ := Option.bind_eq_some_iff.mp read
      obtain ⟨others, meansOthers, same⟩ := Option.bind_eq_some_iff.mp read
      cases same
      rcases List.mem_cons.mp member with rfl | later
      · exact ⟨item, List.mem_cons_self, means⟩
      · obtain ⟨source, among, meant⟩ := ih meansOthers later
        exact ⟨source, List.mem_cons_of_mem _ among, meant⟩

theorem loads_array {depth : Nat} {items : List Written}
    (each : ∀ item ∈ items, Loads depth item) : Loads (depth + 1) (array items) := by
  intro value means
  obtain ⟨values, read, rfl⟩ := Option.map_eq_some_iff.mp means
  refine .array fun item member => ?_
  obtain ⟨source, among, meant⟩ := exists_of_mem_values? read member
  exact each source among item meant

/-- Members are put in their places, and none comes from anywhere else. -/
theorem members?_eq_some {members : List (List Piece × Written)}
    {found result : List (String × Json)} (read : members? members found = some result)
    (ascending : Ascending found) :
    Ascending result ∧ ∀ entry ∈ result, entry ∈ found ∨
      ∃ member ∈ members, member.2.value? = some entry.2 := by
  induction members generalizing found with
  | nil =>
      cases read
      exact ⟨ascending, fun entry member => .inl member⟩
  | cons member rest ih =>
      obtain ⟨key, _, read⟩ := Option.bind_eq_some_iff.mp read
      obtain ⟨value, means, read⟩ := Option.bind_eq_some_iff.mp read
      obtain ⟨inOrder, sources⟩ := ih read (ascending_insertEntry ascending)
      refine ⟨inOrder, fun entry among => ?_⟩
      rcases sources entry among with inserted | ⟨source, later, meant⟩
      · rcases mem_insertEntry inserted with rfl | old
        · exact .inr ⟨member, List.mem_cons_self, means⟩
        · exact .inl old
      · exact .inr ⟨source, List.mem_cons_of_mem _ later, meant⟩

theorem loads_object {depth : Nat} {members : List (List Piece × Written)}
    (each : ∀ member ∈ members, Loads depth member.2) : Loads (depth + 1) (object members) := by
  intro value means
  obtain ⟨entries, read, rfl⟩ := Option.map_eq_some_iff.mp means
  obtain ⟨ascending, sources⟩ := members?_eq_some read List.Pairwise.nil
  refine .object ascending fun entry member => ?_
  obtain ⟨source, among, meant⟩ := (sources entry member).resolve_left List.not_mem_nil
  exact each source among entry.2 meant

mutual
theorem loads_of_readValue? : {steps depth : Nat} → {text rest : List Char} → {value : Written} →
    readValue? steps depth text = some (value, rest) → Loads depth value
  | 0, _, _, _, _, read => by
      rw [readValue?] at read
      cases read
  | steps + 1, depth, text, rest, value, read => by
      rw [readValue?] at read
      split at read
      · cases read
        rintro _ ⟨⟩
        exact .null
      · cases read
        rintro _ ⟨⟩
        exact .bool true
      · cases read
        rintro _ ⟨⟩
        exact .bool false
      · obtain ⟨⟨pieces, _⟩, _, same⟩ := Option.map_eq_some_iff.mp read
        cases same
        exact loads_string pieces
      · -- No depth left, an array that is closed at once, or its items.
        split at read
        · cases read
        · cases read
          exact loads_array (List.forall_mem_nil _)
        · obtain ⟨⟨items, _⟩, found, same⟩ := Option.map_eq_some_iff.mp read
          cases same
          exact loads_array (loads_of_readItems? found)
      · split at read
        · cases read
        · cases read
          exact loads_object (List.forall_mem_nil _)
        · obtain ⟨⟨members, _⟩, found, same⟩ := Option.map_eq_some_iff.mp read
          cases same
          exact loads_object (loads_of_readMembers? found)
      · obtain ⟨⟨numeral, _⟩, _, same⟩ := Option.map_eq_some_iff.mp read
        cases same
        exact loads_number numeral

theorem loads_of_readItems? : {steps depth : Nat} → {text rest : List Char} →
    {items : List Written} → readItems? steps depth text = some (items, rest) →
      ∀ item ∈ items, Loads depth item
  | 0, _, _, _, _, read => by
      rw [readItems?] at read
      cases read
  | steps + 1, depth, text, rest, items, read => by
      rw [readItems?] at read
      obtain ⟨⟨item, behind⟩, first, read⟩ := Option.bind_eq_some_iff.mp read
      dsimp only at read
      split at read
      · obtain ⟨⟨others, _⟩, found, same⟩ := Option.bind_eq_some_iff.mp read
        cases same
        exact List.forall_mem_cons.mpr ⟨loads_of_readValue? first, loads_of_readItems? found⟩
      · cases read
        exact List.forall_mem_singleton.mpr (loads_of_readValue? first)
      · cases read

theorem loads_of_readMembers? : {steps depth : Nat} → {text rest : List Char} →
    {members : List (List Piece × Written)} →
      readMembers? steps depth text = some (members, rest) →
        ∀ member ∈ members, Loads depth member.2
  | 0, _, _, _, _, read => by
      rw [readMembers?] at read
      cases read
  | steps + 1, depth, text, rest, members, read => by
      rw [readMembers?] at read
      split at read
      · obtain ⟨⟨key, behind⟩, _, read⟩ := Option.bind_eq_some_iff.mp read
        dsimp only at read
        split at read
        · obtain ⟨⟨value, after⟩, first, read⟩ := Option.bind_eq_some_iff.mp read
          dsimp only at read
          split at read
          · obtain ⟨⟨others, _⟩, found, same⟩ := Option.bind_eq_some_iff.mp read
            cases same
            exact List.forall_mem_cons.mpr
              ⟨loads_of_readValue? first, loads_of_readMembers? found⟩
          · cases read
            exact List.forall_mem_singleton.mpr (loads_of_readValue? first)
          · cases read
        · cases read
      · cases read
end

end Written

theorem loaded_of_load? {text : List Char} {value : Json} (read : load? text = some value) :
    Loaded maxDepth value := by
  obtain ⟨written, found, means⟩ := Option.bind_eq_some_iff.mp read
  obtain ⟨⟨first, rest⟩, start, ends⟩ := Option.bind_eq_some_iff.mp found
  dsimp only at ends
  split at ends
  · cases ends
    exact Written.loads_of_readValue? start value means
  · cases ends

/-! Parts of values. -/

inductive Within (part : Json) : Json → Prop
  | self : Within part part
  | item {items : List Json} {item : Json} (among : item ∈ items) (inside : Within part item) :
      Within part (array items)
  | member {members : List (String × Json)} {key : String} {value : Json}
      (among : (key, value) ∈ members) (inside : Within part value) :
      Within part (object members)

namespace Loaded

variable {depth : Nat} {value : Json}

theorem deeper (loaded : Loaded depth value) : Loaded (depth + 1) value := by
  induction loaded with
  | null => exact .null
  | bool value => exact .bool value
  | int least greatest => exact .int least greatest
  | float value => exact .float value
  | string value => exact .string value
  | array _ ih => exact .array ih
  | object ascending _ ih => exact .object ascending ih

theorem within {whole part : Json} (loaded : Loaded depth whole) (inside : Within part whole) :
    Loaded depth part := by
  induction inside generalizing depth with
  | self => exact loaded
  | item among _ ih =>
      -- Items nest less deep than their array, so they nest less deep than is allowed.
      cases loaded with
      | array inner => exact (ih (inner _ among)).deeper
  | member among _ ih =>
      cases loaded with
      | object _ inner => exact (ih (inner _ among)).deeper

theorem fits (loaded : Loaded depth value)
    (whole : ∀ number, ¬ Within (Json.float number) value) : Fits depth value := by
  induction loaded with
  | null => exact .null
  | bool value => exact .bool value
  | int least greatest => exact .int least greatest
  | float value => exact absurd .self (whole value)
  | string value => exact .string value
  | array _ ih =>
      exact .array fun item member =>
        ih item member fun number inside => whole number (.item member inside)
  | object _ _ ih =>
      exact .object fun entry member =>
        ih entry member fun number inside => whole number (.member member inside)

theorem sorted_eq (loaded : Loaded depth value) : value.sorted = value := by
  induction loaded with
  | null | bool _ | int _ _ | float _ | string _ => simp only [sorted]
  | array _ ih =>
      rw [sorted, sortedItems_eq_map]
      exact congrArg Json.array ((List.map_congr_left ih).trans (List.map_id' _))
  | @object _ members ascending _ ih =>
      have kept : ∀ entry ∈ members, (entry.1, entry.2.sorted) = entry := by
        intro entry member
        rw [ih entry member]
      rw [sorted, sortedMembers_of_ascending ascending fun _ _ => List.forall_mem_nil _,
        List.nil_append]
      exact congrArg Json.object ((List.map_congr_left kept).trans (List.map_id' _))

end Loaded

/-- A part of a document without binary64 numbers is read from its compact form as it was. -/
theorem load?_compact_of_within {text : List Char} {document part : Json}
    (read : load? text = some document) (inside : Within part document)
    (whole : ∀ number, ¬ Within (float number) part) : load? part.compact = some part := by
  have loaded : Loaded maxDepth part := (loaded_of_load? read).within inside
  rw [load?_compact (loaded.fits whole), loaded.sorted_eq]

end ContractTables.Json
