import SchemaWire.Text.Name

/-!
# Characters of names

White space is no part of a name, so it separates names. The spelling under which names are looked
up has no white space at its ends and no ASCII capital.
-/

set_option autoImplicit false

namespace SchemaWire

namespace Unicode

theorem exists_range_of_inRanges {ranges : List (Nat × Nat)} {code : Nat}
    (inside : inRanges ranges code = true) :
    ∃ range ∈ ranges, range.1 ≤ code ∧ code ≤ range.2 := by
  induction ranges with
  | nil => cases inside
  | cons range rest ih =>
      obtain ⟨first, last⟩ := range
      simp only [inRanges] at inside
      split at inside
      · cases inside
      · split at inside
        · exact ⟨(first, last), List.mem_cons_self, by omega, by omega⟩
        · obtain ⟨range, member, bounds⟩ := ih inside
          exact ⟨range, List.mem_cons_of_mem _ member, bounds⟩

/-- What holds of every white space character by its number holds of white space. -/
theorem of_isWhiteSpace (property : Char → Prop) {c : Char} (white : isWhiteSpace c = true)
    (each : ∀ range ∈ whiteSpaceRanges, ∀ code ∈ List.range' range.1 (range.2 + 1 - range.1),
      property (Char.ofNat code)) : property c := by
  obtain ⟨range, member, low, high⟩ := exists_range_of_inRanges white
  have held := each range member c.toNat (List.mem_range'_1.mpr ⟨low, by omega⟩)
  rwa [Char.ofNat_toNat] at held

end Unicode

namespace Text

open Unicode (isWhiteSpace)

theorem isNameChar_of_isWhiteSpace {c : Char} (white : isWhiteSpace c = true) :
    isNameChar c = false :=
  Unicode.of_isWhiteSpace (fun c => isNameChar c = false) white (by decide +kernel)

/-! ## Looked-up spelling -/

/-- A spelling under which names are looked up. -/
structure Normalized (name : String) : Prop where
  first : ∀ c, name.toList.head? = some c → isWhiteSpace c = false
  last : ∀ c, name.toList.getLast? = some c → isWhiteSpace c = false
  lower : ∀ c ∈ name.toList, ¬('A' ≤ c ∧ c ≤ 'Z')

/-- A capital is one of twenty-six characters. -/
theorem of_capital (property : Char → Prop) {c : Char} (capital : 'A' ≤ c ∧ c ≤ 'Z')
    (each : ∀ code ∈ List.range' 65 26, property (Char.ofNat code)) : property c := by
  obtain ⟨low, high⟩ := capital
  have least : 65 ≤ c.toNat := low
  have greatest : c.toNat ≤ 90 := high
  have held := each c.toNat (List.mem_range'_1.mpr ⟨least, by omega⟩)
  rwa [Char.ofNat_toNat] at held

theorem asciiLower_not_capital (c : Char) : ¬('A' ≤ asciiLower c ∧ asciiLower c ≤ 'Z') := by
  by_cases capital : 'A' ≤ c ∧ c ≤ 'Z'
  · exact of_capital (fun c => ¬('A' ≤ asciiLower c ∧ asciiLower c ≤ 'Z')) capital (by decide)
  · rwa [asciiLower, if_neg capital]

theorem isWhiteSpace_asciiLower (c : Char) : isWhiteSpace (asciiLower c) = isWhiteSpace c := by
  by_cases capital : 'A' ≤ c ∧ c ≤ 'Z'
  · exact of_capital (fun c => isWhiteSpace (asciiLower c) = isWhiteSpace c) capital (by decide)
  · rw [asciiLower, if_neg capital]

theorem head?_dropWhile {text : List Char} {c : Char}
    (first : (text.dropWhile isWhiteSpace).head? = some c) : isWhiteSpace c = false := by
  have held := List.head?_dropWhile_not isWhiteSpace text
  rw [first] at held
  simpa using held

theorem getLast?_trim {text : List Char} {c : Char} (last : (trim text).getLast? = some c) :
    isWhiteSpace c = false := by
  rw [trim, List.getLast?_reverse] at last
  exact head?_dropWhile last

/-- Trimming the end leaves the first character in its place. -/
theorem head?_trim {text : List Char} {c : Char} (first : (trim text).head? = some c) :
    isWhiteSpace c = false := by
  obtain ⟨dropped, whole⟩ :=
    List.dropWhile_suffix (l := (text.dropWhile isWhiteSpace).reverse) isWhiteSpace
  have split := congrArg List.reverse whole
  rw [List.reverse_append, List.reverse_reverse, ← trim] at split
  have same : (text.dropWhile isWhiteSpace).head? = some c := by
    rw [← split, List.head?_append, first]
    rfl
  exact head?_dropWhile same

theorem normalized_normalizeName (given : String) : Normalized (normalizeName given) where
  first c first := by
    rw [normalizeName, String.toList_ofList, List.head?_map] at first
    obtain ⟨original, found, rfl⟩ := Option.map_eq_some_iff.mp first
    rw [isWhiteSpace_asciiLower]
    exact head?_trim found
  last c last := by
    rw [normalizeName, String.toList_ofList, List.getLast?_map] at last
    obtain ⟨original, found, rfl⟩ := Option.map_eq_some_iff.mp last
    rw [isWhiteSpace_asciiLower]
    exact getLast?_trim found
  lower c member := by
    rw [normalizeName, String.toList_ofList] at member
    obtain ⟨original, -, rfl⟩ := List.mem_map.mp member
    exact asciiLower_not_capital original

end Text

end SchemaWire
