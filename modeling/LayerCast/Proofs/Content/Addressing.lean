import LayerCast.Content.ManifestText
import LayerCast.Proofs.Content.Segments
import Mathlib.Data.List.TakeWhile

/-!
# `LayerCast.Proofs.Content.Addressing`: every level and number within bounds has its segment

A manifest that was accepted (`Accepted`), whether it was made in memory or read from a text, is
the manifest as it was given with the representations of every period sorted (`Sorted`). What it
answers for a level and a number is then

* nothing outside of the levels and the segments of the current period,
* and inside of them the entry of the one representation of that level (`IsEntry`), at the place
  that the path of the entry names (`Locates`).

There is no hole between the two: `totalSegments` is the largest number up to which every
representation has an entry for every segment, and it is positive.

The texts of the paths are spelled out without the functions that compute them. A path is absolute
if it starts with a slash or has `://` in it, and one that is not is set behind the base URL, with
one slash between the two whatever number of slashes the base URL ends in.
-/

set_option autoImplicit false

namespace LayerCast

namespace Manifest

/-! ### Paths -/

/-- A path that names its place by itself. -/
def Absolute (path : String) : Prop :=
  (∃ rest, path = "/" ++ rest) ∨ ∃ scheme rest, path = scheme ++ "://" ++ rest

/-- Two texts that meet in one slash. -/
structure MeetInOneSlash (front back : String) : Prop where
  front : front.toList.getLast? ≠ some '/'
  back : back.toList.head? ≠ some '/'

/-- The place that a path names, given the base URL of the manifest. -/
inductive Locates (baseUrl path : String) : String → Prop where
  | absolute (habsolute : Absolute path) : Locates baseUrl path path
  | relative (hrelative : ¬ Absolute path) (root slashes : String)
      (hbase : baseUrl = root ++ slashes) (hslashes : ∀ c ∈ slashes.toList, c = '/')
      (hmeet : MeetInOneSlash root path) : Locates baseUrl path (root ++ "/" ++ path)

/-- A reference has a scheme exactly if a colon and two slashes stand somewhere in it. -/
theorem hasScheme_iff (cs : List Char) :
    hasScheme cs = true ↔ ∃ before behind, cs = before ++ [':', '/', '/'] ++ behind := by
  -- Along the characters: the scheme ends here, or somewhere in the rest.
  induction cs with
  | nil => simp [hasScheme]
  | cons c rest ih =>
      rw [hasScheme, Bool.or_eq_true, List.isPrefixOf_iff_prefix, ih]
      constructor
      · intro h
        cases h with
        | inl hhere =>
            obtain ⟨behind, hbehind⟩ := hhere
            exact ⟨[], behind, hbehind.symm⟩
        | inr hthere =>
            obtain ⟨before, behind, hsplit⟩ := hthere
            exact ⟨c :: before, behind, by rw [hsplit]; rfl⟩
      · rintro ⟨before, behind, hsplit⟩
        cases before with
        | nil => exact .inl ⟨behind, hsplit.symm⟩
        | cons b before' => exact .inr ⟨before', behind, (List.cons.inj hsplit).2⟩

/-- Whether a path is absolute is read off its characters. -/
theorem isAbsolute_iff (path : String) : isAbsolute path = true ↔ Absolute path := by
  rw [isAbsolute, Bool.or_eq_true, beq_iff_eq, hasScheme_iff, Absolute]
  constructor
  · intro h
    cases h with
    | inl hslash =>
        obtain ⟨rest, hrest⟩ := List.head?_eq_some_iff.mp hslash
        exact .inl ⟨String.ofList rest, String.toList_inj.mp (by simpa using hrest)⟩
    | inr hscheme =>
        obtain ⟨before, behind, hsplit⟩ := hscheme
        exact .inr ⟨String.ofList before, String.ofList behind,
          String.toList_inj.mp (by simpa using hsplit)⟩
  · intro h
    cases h with
    | inl hslash =>
        obtain ⟨rest, rfl⟩ := hslash
        exact .inl (by simp)
    | inr hscheme =>
        obtain ⟨scheme, rest, rfl⟩ := hscheme
        exact .inr ⟨scheme.toList, rest.toList, by simp⟩

/-- What stays of a text without the slashes at its end does not end in a slash. -/
theorem split_slashes (cs : List Char) : ∃ slashes,
    cs = (cs.reverse.dropWhile (· == '/')).reverse ++ slashes ∧ (∀ c ∈ slashes, c = '/') ∧
      (cs.reverse.dropWhile (· == '/')).reverse.getLast? ≠ some '/' := by
  refine ⟨(cs.reverse.takeWhile (· == '/')).reverse, ?_, ?_, ?_⟩
  · rw [← List.reverse_append, List.takeWhile_append_dropWhile, List.reverse_reverse]
  · intro c hc
    simpa using List.mem_takeWhile_imp (List.mem_reverse.mp hc)
  · rw [List.getLast?_reverse]
    intro hslash
    have hnot := List.head?_dropWhile_not (· == '/') cs.reverse
    rw [hslash] at hnot
    simp at hnot

/-- The URI of an entry is the place that its path names. -/
theorem locates_uri (baseUrl path : String) :
    Locates baseUrl path (if isAbsolute path then path else join baseUrl path) := by
  by_cases habsolute : isAbsolute path = true
  · rw [if_pos habsolute]
    exact .absolute ((isAbsolute_iff path).mp habsolute)
  · rw [if_neg habsolute]
    rw [isAbsolute_iff] at habsolute
    -- The slashes at the end of the base URL are cut off, whatever their number.
    obtain ⟨slashes, hsplit, hslashes, hroot⟩ := split_slashes baseUrl.toList
    apply Locates.relative habsolute _ (String.ofList slashes)
    · apply String.toList_inj.mp
      simpa using hsplit
    · simpa using hslashes
    · constructor
      · simpa using hroot
      · intro hslash
        obtain ⟨rest, hrest⟩ := List.head?_eq_some_iff.mp hslash
        apply habsolute
        exact .inl ⟨String.ofList rest, String.toList_inj.mp (by simpa using hrest)⟩

/-! ### Entries -/

/-- A segment is the entry of a representation at a number. -/
structure IsEntry (baseUrl : String) (r : Representation) (k : Nat) (s : Segment) : Prop where
  number : s.number = k
  representation : s.representation = r.id
  bandwidth : s.bandwidth = r.bandwidth
  duration : s.duration = r.duration
  size : s.size = r.sizes[k]?
  uri : ∃ path, r.media[k]? = some path ∧ Locates baseUrl path s.uri

/-- What is answered for a level and a number is an entry of the representation of that level. -/
theorem isEntry_of_segment? {m : Manifest} {level number : Nat} {s : Segment}
    (h : m.segment? level number = some s) : s.level = level ∧
      ∃ r, (m.representations m.currentPeriod)[level]? = some r ∧
        IsEntry m.baseUrl r number s := by
  obtain ⟨-, r, hr, path, hpath, rfl⟩ := segment?_eq_some_iff.mp h
  exact ⟨rfl, r, hr, rfl, rfl, rfl, rfl, rfl, path, hpath, locates_uri m.baseUrl path⟩

/-- There is a segment exactly within the bounds. -/
theorem isSome_segment?_iff (m : Manifest) (level number : Nat) :
    (m.segment? level number).isSome = true ↔
      level < m.levels ∧ number < m.totalSegments m.currentPeriod := by
  rw [Option.isSome_iff_exists]
  constructor
  · rintro ⟨s, hs⟩
    obtain ⟨hnumber, r, hr, -⟩ := segment?_eq_some_iff.mp hs
    exact ⟨(List.getElem?_eq_some_iff.mp hr).1, hnumber⟩
  · intro h
    exact exists_segment? h.1 h.2

/-! ### Accepted manifests -/

/-- A manifest was accepted: it was made of periods in memory, or read from a text. The manifest
`raw` is the one that was given. -/
inductive Accepted (raw m : Manifest) : Prop where
  | periods (hfirst : raw.currentPeriod = 0) (h : ofPeriods raw.baseUrl raw.periods = .ok m)
  | text (s : String) (hread : (Json.Value.parse? s).bind ofJson? = some raw)
      (h : parse s = .ok m)

/-- A manifest that was accepted is normalized. -/
theorem Accepted.normalize {raw m : Manifest} (h : Accepted raw m) : raw.normalize = .ok m := by
  cases h with
  | periods hfirst h =>
      have hraw : raw = { baseUrl := raw.baseUrl, periods := raw.periods } := by
        rw [← hfirst]
      rw [hraw]
      exact h
  | text s hread h =>
      rw [parse, hread] at h
      cases hnormal : raw.normalize with
      | error d => simp [hnormal, Except.mapError] at h
      | ok m' => simpa [hnormal, Except.mapError] using h

/-- Representations in the order of their bandwidths, and in the given order where these agree. -/
structure Sorted (given sorted : List Representation) : Prop where
  perm : sorted.Perm given
  ordered : sorted.Pairwise fun r r' => r.bandwidth ≤ r'.bandwidth
  stable : ∀ bandwidth, sorted.filter (·.bandwidth == bandwidth) =
    given.filter (·.bandwidth == bandwidth)

/-- The representations of a manifest that was accepted are sorted. -/
theorem sorted_of_accepted {raw m : Manifest} (h : Accepted raw m) (period : Nat) :
    Sorted (raw.representations period) (m.representations period) := by
  rw [representations_of_normalize h.normalize]
  exact ⟨sortOn_perm _ _, pairwise_sortOn _ _, fun bandwidth => filter_sortOn _ bandwidth _⟩

/-- An array has an entry at every place before a number exactly if it is as long. -/
theorem le_size_iff {α : Type} (xs : Array α) (n : Nat) :
    n ≤ xs.size ↔ ∀ k < n, (xs[k]?).isSome = true := by
  simp only [isSome_getElem?]
  constructor
  · intro h k hk
    exact Nat.lt_of_lt_of_le hk h
  · intro h
    apply Nat.le_of_not_lt
    intro hlt
    exact Nat.lt_irrefl _ (h xs.size hlt)

/-- Every period of a manifest that was accepted ends where a first representation ends, and no
representation is empty. -/
theorem totalSegments_of_accepted {raw m : Manifest} (h : Accepted raw m) {period : Nat}
    (hperiod : period < raw.periods.length) :
    0 < m.totalSegments period ∧ ∀ n, n ≤ m.totalSegments period ↔
      ∀ r ∈ m.representations period, ∀ k < n, (r.media[k]?).isSome = true := by
  have hsound := sound_of_normalize h.normalize hperiod
  have hreach : ∀ n, n ≤ m.totalSegments period ↔
      ∀ r ∈ m.representations period, n ≤ r.media.size :=
    Period.le_totalSegments_iff (p := ⟨m.representations period⟩) hsound.1
  constructor
  · rw [← Nat.succ_le_iff, hreach]
    intro r hr
    exact (hsound.2 r hr).1
  · intro n
    simp only [hreach, le_size_iff]

/-- **Addressing is total within bounds.** A manifest that was accepted keeps its base URL, its
current period and its number of periods, and sorts the representations of each. It has a segment at
a level and a number exactly if there is such a level and the number is before the end of the
current period, and that segment is the entry of the representation of that level. Every period ends
with the largest number up to which all its representations have entries, and is not empty. -/
theorem addressing_total {raw m : Manifest} (h : Accepted raw m) :
    (m.baseUrl = raw.baseUrl ∧ m.currentPeriod = raw.currentPeriod ∧
      m.periods.length = raw.periods.length ∧ m.currentPeriod < m.periods.length) ∧
    (∀ period, Sorted (raw.representations period) (m.representations period)) ∧
    (∀ level number, (m.segment? level number).isSome = true ↔
      level < m.levels ∧ number < m.totalSegments m.currentPeriod) ∧
    (∀ level number s, m.segment? level number = some s → s.level = level ∧
      ∃ r, (m.representations m.currentPeriod)[level]? = some r ∧
        IsEntry m.baseUrl r number s) ∧
    ∀ period < m.periods.length, 0 < m.totalSegments period ∧
      ∀ n, n ≤ m.totalSegments period ↔
        ∀ r ∈ m.representations period, ∀ k < n, (r.media[k]?).isSome = true := by
  -- Normalizing only reorders the representations of each period.
  have hform := (defect?_of_normalize h.normalize).2
  have hlength : m.periods.length = raw.periods.length := by
    rw [hform]
    exact List.length_map _
  have hcurrent : m.currentPeriod = raw.currentPeriod := by
    rw [hform]
  refine ⟨⟨?base, hcurrent, hlength, ?inside⟩, sorted_of_accepted h, isSome_segment?_iff m, ?entry,
    ?ends⟩
  case base => rw [hform]
  case inside =>
    rw [hcurrent, hlength]
    exact currentPeriod_lt_of_normalize h.normalize
  case entry =>
    intro level number s hs
    exact isEntry_of_segment? hs
  case ends =>
    intro period hperiod
    exact totalSegments_of_accepted h (hlength ▸ hperiod)

/-- Two encodings as a text gives them: the better one first, and with an entry more. -/
def sampleGiven : Manifest where
  baseUrl := "http://h//"
  periods := [⟨[⟨"hi", 2000, 100, #["b0", "http://x/b1"], #[7]⟩, ⟨"lo", 1000, 100, #["/a0"], #[]⟩]⟩]

/-- The two encodings in the order of their bandwidths. -/
def sampleKept : Manifest :=
  { sampleGiven with periods := sampleGiven.periods.map Period.sort }

/-- The text of the two encodings. -/
def sampleText : String :=
  "\x7b\"base_url\":\"http://h//\",\"periods\":[\x7b\"representations\":[" ++
  "\x7b\"id\":\"hi\",\"bandwidth\":2000,\"segment_duration_ms\":100," ++
  "\"media\":[\"b0\",\"http://x/b1\"],\"sizes\":[7]\x7d," ++
  "\x7b\"id\":\"lo\",\"bandwidth\":1000,\"segment_duration_ms\":100," ++
  "\"media\":[\"/a0\"]\x7d]\x7d]\x7d"

/-- The better encoding ends up above the other one, and its second entry lies behind the end. -/
theorem addressing_total_sample :
    Accepted sampleGiven sampleKept ∧ 1 < sampleKept.levels ∧
      sampleKept.totalSegments sampleKept.currentPeriod = 1 ∧
      (∃ s, sampleKept.segment? 1 0 = some s ∧ s.uri = "http://h/b0" ∧ s.size = some 7 ∧
        s.representation = "hi") ∧
      (∃ s, sampleKept.segment? 0 0 = some s ∧ s.uri = "/a0" ∧ s.size = none) ∧
      (sampleKept.segment? 1 1).isSome = false := by
  have hread : (Json.Value.parse? sampleText).bind ofJson? = some sampleGiven := by decide +kernel
  have hkept : parse sampleText = .ok sampleKept := by
    rw [parse, hread]
    rfl
  have haccepted : Accepted sampleGiven sampleKept := .text sampleText hread hkept
  obtain ⟨-, -, hbounds, -, -⟩ := addressing_total haccepted
  refine ⟨haccepted, by decide, by decide, ⟨_, rfl, by decide, by decide, by decide⟩,
    ⟨_, rfl, by decide, by decide⟩, ?_⟩
  rw [Bool.eq_false_iff, ne_eq, hbounds]
  decide

end Manifest

end LayerCast
