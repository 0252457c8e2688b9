import LayerCast.Content.Name

/-!
# `LayerCast.Proofs.Content.Names`: chunk names and their texts

A chunk name is written as the name of its segment, the separator, and the number of the chunk.
The segment's name may hold the separator itself, even at its end, so that reading a name back is
a matter of finding the right place:

* `splitLast_eq_some_iff`: `splitLast` finds the last place where the separator stands.
* `isLastSplit_of_not_mem`: nothing behind a separator can hold a later one as long as it holds no
  slash. The separator has a slash at its start and nowhere else, so that two of them do not
  overlap.
* `parseNumber?_eq_some_iff`: which texts are read as a number (`Numeral`). The digits of a number
  are one of them (`numeral_digits`), and none of them holds a slash.

`names_round_trip` puts these together: a name that was written is read back, and what is read are
the texts of the form that a name is written in.
-/

set_option autoImplicit false

namespace LayerCast.ChunkName

/-! ### The last separator -/

/-- A text is split at the last place where the separator stands. -/
structure IsLastSplit (cs before behind : List Char) : Prop where
  split : cs = before ++ separator ++ behind
  last : ∀ other rest, cs = other ++ separator ++ rest → other.length ≤ before.length

/-- A separator stands at the start of a text, or in what follows the first character. -/
theorem eq_nil_or_of_split {c : Char} {cs before behind : List Char}
    (h : c :: cs = before ++ separator ++ behind) :
    before = [] ∨ ∃ before', before = c :: before' ∧ cs = before' ++ separator ++ behind := by
  cases before with
  | nil => exact .inl rfl
  | cons b before' =>
      rw [List.append_assoc, List.cons_append, List.cons.injEq, ← List.append_assoc] at h
      exact .inr ⟨before', by rw [h.1], h.2⟩

/-- Where the separator starts a text, the text is the separator and a rest. -/
theorem isPrefixOf_separator_iff {cs : List Char} :
    separator.isPrefixOf cs = true ↔ ∃ rest, cs = separator ++ rest := by
  rw [List.isPrefixOf_iff_prefix]
  constructor
  · rintro ⟨rest, h⟩
    exact ⟨rest, h.symm⟩
  · rintro ⟨rest, rfl⟩
    exact List.prefix_append separator rest

/-- `splitLast` finds the last separator, and finds none only where there is none. -/
theorem splitLast_spec (cs : List Char) :
    (∀ before behind, splitLast cs = some (before, behind) → IsLastSplit cs before behind) ∧
      (splitLast cs = none → ∀ before behind, cs ≠ before ++ separator ++ behind) := by
  induction cs with
  | nil =>
      constructor
      · intro before behind h
        cases h
      · intro _ before behind h
        simp [separator] at h
  | cons c rest ih =>
      simp only [splitLast]
      cases hrest : splitLast rest with
      | some found =>
          have hlast := ih.1 found.1 found.2 hrest
          constructor
          · intro before behind h
            obtain ⟨rfl, rfl⟩ : c :: found.1 = before ∧ found.2 = behind := by simpa using h
            constructor
            · rw [hlast.split]
              rfl
            · intro other others h
              cases eq_nil_or_of_split h with
              | inl hnil => simp [hnil]
              | inr hcons =>
                  obtain ⟨other', rfl, hrest⟩ := hcons
                  have hle := hlast.last other' others hrest
                  simpa using hle
          · intro h
            cases h
      | none =>
          -- A separator can only stand at the start.
          have hstart : ∀ before behind, c :: rest = before ++ separator ++ behind →
              before = [] := by
            intro before behind h
            cases eq_nil_or_of_split h with
            | inl hnil => exact hnil
            | inr hcons =>
                obtain ⟨before', -, hsplit⟩ := hcons
                exact absurd hsplit (ih.2 hrest before' behind)
          by_cases hhere : separator.isPrefixOf (c :: rest) = true
          · constructor
            · intro before behind h
              simp only [hhere, if_true, Option.some.injEq, Prod.mk.injEq] at h
              obtain ⟨behind', hsplit⟩ := isPrefixOf_separator_iff.mp hhere
              constructor
              · rw [← h.1, ← h.2, hsplit, List.drop_left]
                rfl
              · intro other others hother
                simp [hstart other others hother]
            · intro h
              simp [hhere] at h
          · constructor
            · intro before behind h
              simp [hhere] at h
            · intro _ before behind h
              apply hhere
              rw [isPrefixOf_separator_iff]
              exact ⟨behind, by rw [h, hstart before behind h, List.nil_append]⟩

/-- There is one last place where the separator stands. -/
theorem IsLastSplit.unique {cs before before' behind behind' : List Char}
    (h : IsLastSplit cs before behind) (h' : IsLastSplit cs before' behind') :
    before = before' ∧ behind = behind' := by
  have hlength : before.length = before'.length :=
    Nat.le_antisymm (h'.last _ _ h.split) (h.last _ _ h'.split)
  have hsame : before ++ (separator ++ behind) = before' ++ (separator ++ behind') := by
    rw [← List.append_assoc, ← List.append_assoc, ← h.split, ← h'.split]
  have hparts := List.append_inj hsame hlength
  exact ⟨hparts.1, List.append_cancel_left hparts.2⟩

/-- What `splitLast` answers is the last split, and the only one. -/
theorem splitLast_eq_some_iff {cs before behind : List Char} :
    splitLast cs = some (before, behind) ↔ IsLastSplit cs before behind := by
  constructor
  · exact (splitLast_spec cs).1 before behind
  · intro h
    cases hfound : splitLast cs with
    | none => exact absurd h.split ((splitLast_spec cs).2 hfound before behind)
    | some found =>
        have hunique := h.unique ((splitLast_spec cs).1 found.1 found.2 hfound)
        rw [hunique.1, hunique.2]

/-- No separator stands behind one that is not followed by a slash. -/
theorem isLastSplit_of_not_mem {before behind : List Char} (h : '/' ∉ behind) :
    IsLastSplit (before ++ separator ++ behind) before behind := by
  constructor
  · rfl
  · intro other rest hsplit
    apply Nat.le_of_not_lt
    intro hlater
    -- The slash of the other separator would stand in what follows the first slash of this one.
    have hslash : (before ++ separator ++ behind)[other.length]? = some '/' := by
      rw [hsplit, List.append_assoc, List.getElem?_append_right (Nat.le_refl _), Nat.sub_self]
      rfl
    have hparts : before ++ separator ++ behind =
        (before ++ ['/']) ++ (['c', 'h', 'u', 'n', 'k', '_'] ++ behind) := by
      simp [separator]
    rw [hparts, List.getElem?_append_right (by simp; omega)] at hslash
    have hmem := List.mem_of_getElem? hslash
    simp [h] at hmem

/-! ### Numbers -/

/-- How a 32-bit number can be written: with digits, at least one, and perhaps a plus sign before
them. -/
structure Numeral (cs : List Char) (n : Nat) : Prop where
  form : ∃ ds, (cs = ds ∨ cs = '+' :: ds) ∧ ds ≠ [] ∧ (∀ d ∈ ds, d.isDigit) ∧
    Nat.ofDigitChars 10 ds 0 = n
  word : n < word32

/-- The digits that a number is read from are those of the standard library. -/
theorem isDigit_eq (c : Char) : isDigit c = c.isDigit := by
  simp [isDigit, Char.isDigit, Char.le_def]

/-- The value of digits that are read from the left. -/
theorem foldl_digits (ds : List Char) :
    ds.foldl (fun acc d => acc * 10 + (d.toNat - 48)) 0 = Nat.ofDigitChars 10 ds 0 := by
  simp only [Nat.ofDigitChars_eq_foldl, Nat.mul_comm]
  rfl

/-- A numeral holds no slash. -/
theorem Numeral.not_mem {cs : List Char} {n : Nat} (h : Numeral cs n) : '/' ∉ cs := by
  intro hmem
  obtain ⟨ds, hform, -, hdigits, -⟩ := h.form
  have hslash : '/' ∈ ds := by
    cases hform with
    | inl hplain => exact hplain ▸ hmem
    | inr hplus =>
        rw [hplus] at hmem
        simpa using hmem
  exact absurd (hdigits '/' hslash) (by decide)

/-- What is not read as a number has no digit or something else among its digits. -/
theorem not_digits_iff {ds : List Char} :
    (ds.isEmpty || !ds.all isDigit) = true ↔ ¬(ds ≠ [] ∧ ∀ d ∈ ds, d.isDigit = true) := by
  by_cases hnil : ds = []
  · simp [hnil]
  · simp [hnil, isDigit_eq]

/-- The value of a text of digits, if it has one and the value is a word. -/
theorem value_eq_some_iff {ds : List Char} {n : Nat} :
    (if ds.isEmpty || !ds.all isDigit then none
      else
        let value := ds.foldl (fun acc d => acc * 10 + (d.toNat - 48)) 0
        if value < word32 then some value else none) = some n ↔
      ds ≠ [] ∧ (∀ d ∈ ds, d.isDigit) ∧ Nat.ofDigitChars 10 ds 0 = n ∧ n < word32 := by
  simp only [foldl_digits, not_digits_iff]
  -- Either there are digits and nothing else, or no value is asked for.
  by_cases hform : ds ≠ [] ∧ ∀ d ∈ ds, d.isDigit = true
  · rw [if_neg (not_not_intro hform)]
    constructor
    · intro h
      split at h
      · rename_i hword
        obtain rfl := Option.some.inj h
        exact ⟨hform.1, hform.2, rfl, hword⟩
      · cases h
    · rintro ⟨-, -, rfl, hword⟩
      rw [if_pos hword]
  · rw [if_pos hform]
    constructor
    · intro h
      cases h
    · intro h
      exact absurd ⟨h.1, h.2.1⟩ hform

/-- A number is read from its numerals, and from nothing else. -/
theorem parseNumber?_eq_some_iff {cs : List Char} {n : Nat} :
    parseNumber? cs = some n ↔ Numeral cs n := by
  unfold parseNumber?
  -- A leading plus is stripped. A text of digits alone does not start with one.
  split
  · rename_i rest
    rw [value_eq_some_iff]
    constructor
    · intro h
      exact ⟨⟨rest, .inr rfl, h.1, h.2.1, h.2.2.1⟩, h.2.2.2⟩
    · intro h
      obtain ⟨ds, hform, hvalue⟩ := h.form
      cases hform with
      | inl hplain => exact absurd (hvalue.2.1 '+' (hplain ▸ List.mem_cons_self)) (by decide)
      | inr hplus =>
          obtain rfl := List.tail_eq_of_cons_eq hplus
          exact ⟨hvalue.1, hvalue.2.1, hvalue.2.2, h.word⟩
  · rename_i hunsigned
    rw [value_eq_some_iff]
    constructor
    · intro h
      exact ⟨⟨cs, .inl rfl, h.1, h.2.1, h.2.2.1⟩, h.2.2.2⟩
    · intro h
      obtain ⟨ds, hform, hvalue⟩ := h.form
      cases hform with
      | inl hplain =>
          rw [hplain]
          exact ⟨hvalue.1, hvalue.2.1, hvalue.2.2, h.word⟩
      | inr hplus => exact absurd hplus (hunsigned ds)

/-- The digits of a number are one of its numerals. -/
theorem numeral_digits {n : Nat} (h : n < word32) : Numeral (digits n) n := by
  constructor
  · refine ⟨digits n, .inl rfl, Nat.toDigits_ne_nil, ?_, Nat.ofDigitChars_ten_toDigits⟩
    intro d hd
    exact Nat.isDigit_of_mem_toDigits (by decide) (by decide) hd
  · exact h

/-! ### Names -/

/-- A name is read from a text that is split at the last separator, with a numeral behind it. -/
theorem parse?_eq_some {s : String} {name : ChunkName} :
    parse? s = some name ↔ ∃ number,
      IsLastSplit s.toList name.segment.toList number ∧ Numeral number name.chunk := by
  unfold parse?
  simp only [Option.bind_eq_bind, Option.bind_eq_some_iff, Option.pure_def, Option.some.injEq,
    Prod.exists, splitLast_eq_some_iff, parseNumber?_eq_some_iff]
  constructor
  · rintro ⟨before, number, hsplit, n, hnumber, rfl⟩
    exact ⟨number, by simpa using hsplit, hnumber⟩
  · rintro ⟨number, hsplit, hnumber⟩
    exact ⟨_, number, hsplit, _, hnumber, by rw [String.ofList_toList]⟩

/-- A name is split at the separator that was written between its two parts. -/
theorem isLastSplit_text (name : ChunkName) :
    IsLastSplit name.text.toList name.segment.toList (digits name.chunk) := by
  rw [text, String.toList_ofList]
  apply isLastSplit_of_not_mem
  intro hslash
  exact absurd (Nat.isDigit_of_mem_toDigits (by decide) (by decide) hslash) (by decide)

/-- A text is a segment's name, the separator and a rest, character by character. -/
theorem toList_eq_iff {s segment number : String} :
    s = segment ++ "/chunk_" ++ number ↔
      s.toList = segment.toList ++ separator ++ number.toList := by
  rw [← String.toList_inj, String.toList_append, String.toList_append]
  rfl

/-- **Chunk names round trip.** A name is read back from its text, and texts of different names
differ. Conversely a text is read as a name exactly if it is the name of the segment, the separator,
and a numeral of the chunk. There the separator stands at its last place in the text. What was read
is read again from the text that it is written as. -/
theorem names_round_trip :
    (∀ name : ChunkName, name.chunk < word32 → parse? name.text = some name) ∧
    (∀ name other : ChunkName, name.text = other.text → name = other) ∧
    (∀ (s : String) (name : ChunkName), parse? s = some name ↔
      ∃ number : String, s = name.segment ++ "/chunk_" ++ number ∧
        Numeral number.toList name.chunk) ∧
    (∀ (s : String) (name : ChunkName), parse? s = some name →
      ∀ before behind : String, s = before ++ "/chunk_" ++ behind →
        before.toList.length ≤ name.segment.toList.length) ∧
    ∀ (s : String) (name : ChunkName), parse? s = some name → parse? name.text = some name := by
  have hback : ∀ name : ChunkName, name.chunk < word32 → parse? name.text = some name := by
    intro name hword
    exact parse?_eq_some.mpr ⟨_, isLastSplit_text name, numeral_digits hword⟩
  refine ⟨hback, ?differ, ?form, ?last, ?again⟩
  case differ =>
    intro name other htext
    -- The number has no separator in it, so that the last split is where the number starts.
    have hsplit := isLastSplit_text other
    rw [← htext] at hsplit
    obtain ⟨hsegment, hdigits⟩ := (isLastSplit_text name).unique hsplit
    have hvalue := congrArg (Nat.ofDigitChars 10 · 0) hdigits
    simp only [digits, Nat.ofDigitChars_ten_toDigits] at hvalue
    cases name
    cases other
    rw [ChunkName.mk.injEq]
    exact ⟨String.toList_inj.mp hsegment, hvalue⟩
  case form =>
    intro s name
    rw [parse?_eq_some]
    constructor
    · rintro ⟨number, hsplit, hnumber⟩
      refine ⟨String.ofList number, ?_, ?_⟩
      · rw [toList_eq_iff, String.toList_ofList]
        exact hsplit.split
      · rwa [String.toList_ofList]
    · rintro ⟨number, hs, hnumber⟩
      refine ⟨number.toList, ?_, hnumber⟩
      rw [toList_eq_iff.mp hs]
      exact isLastSplit_of_not_mem hnumber.not_mem
  case last =>
    intro s name hparse before behind hs
    obtain ⟨number, hsplit, -⟩ := parse?_eq_some.mp hparse
    exact hsplit.last _ _ (toList_eq_iff.mp hs)
  case again =>
    intro s name hparse
    obtain ⟨number, -, hnumber⟩ := parse?_eq_some.mp hparse
    exact hback name hnumber.word

/-- A segment whose own name ends in the text of a chunk name. -/
theorem names_round_trip_sample :
    (4294967295 < word32 ∧
      parse? (text ⟨"/a/chunk_7", 4294967295⟩) = some ⟨"/a/chunk_7", 4294967295⟩) ∧
    (text ⟨"/a/chunk_7", 4294967295⟩ = "/a/chunk_7/chunk_4294967295") ∧
    (parse? "/a/chunk_1/chunk_+007" = some ⟨"/a/chunk_1", 7⟩ ∧
      parse? (text ⟨"/a/chunk_1", 7⟩) = some ⟨"/a/chunk_1", 7⟩) := by
  have hword : 4294967295 < word32 := by decide
  have hplus : parse? "/a/chunk_1/chunk_+007" = some ⟨"/a/chunk_1", 7⟩ := by decide +kernel
  exact ⟨⟨hword, names_round_trip.1 _ hword⟩, by decide +kernel, hplus,
    names_round_trip.2.2.2.2 _ _ hplus⟩

end LayerCast.ChunkName
