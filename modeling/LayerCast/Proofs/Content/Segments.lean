import LayerCast.Content.Manifest

/-!
# `LayerCast.Proofs.Content.Segments`: the segments of a manifest

`Manifest.segment?_eq_some_iff` opens the search for a segment once: it is there before the end of
the content if the representation of its level has a path for it, and all that it bears is read off
that representation. What is asked of it elsewhere follows: it bears the level and the number that
were asked for and the playback time of its level (`segment?_spec`), and there is one at every level
and number of the content (`exists_segment?`), as the end of a period is the largest one that every
representation reaches (`Period.le_totalSegments_iff`).

A normalized manifest has levels (`levels_pos_of_normalize`) in the order of their bandwidths
(`sorted_of_normalize`), and its segments take time to play (`duration_pos_of_normalize`).
-/

set_option autoImplicit false

namespace LayerCast

/-! ### Periods -/

namespace Period

/-- A number is not above the least of several sizes if it is above none of them. -/
theorem le_foldl_min_iff (others : List Representation) (least n : Nat) :
    n ≤ others.foldl (fun least r => min least r.media.size) least ↔
      n ≤ least ∧ ∀ r ∈ others, n ≤ r.media.size := by
  induction others generalizing least with
  | nil => simp
  | cons other others ih =>
      rw [List.foldl_cons, ih, List.forall_mem_cons, Nat.le_min, and_assoc]

/-- The end of a period is the largest number that every representation reaches. -/
theorem le_totalSegments_iff {p : Period} (hsome : p.representations ≠ []) (n : Nat) :
    n ≤ p.totalSegments ↔ ∀ r ∈ p.representations, n ≤ r.media.size := by
  unfold totalSegments
  cases hall : p.representations with
  | nil => exact absurd hall hsome
  | cons first rest =>
      simp only [le_foldl_min_iff, List.forall_mem_cons]

/-- What a period without a defect has. -/
theorem sound_of_defect? {p : Period} {index : Nat} (h : p.defect? index = none) :
    p.representations ≠ [] ∧
      ∀ r ∈ p.representations, 0 < r.media.size ∧ 0 < r.segmentMillis := by
  -- Each test that was passed rules out one defect of every representation.
  unfold defect? at h
  split at h
  · cases h
  · rename_i hsome
    split at h
    · cases h
    · rename_i hmedia
      have hzero := Option.map_eq_none_iff.mp h
      constructor
      · intro hnone
        exact hsome (List.isEmpty_iff.mpr hnone)
      · intro r hr
        have hpath := List.find?_eq_none.mp hmedia r hr
        have hmillis := List.find?_eq_none.mp hzero r hr
        constructor
        · simpa [Nat.pos_iff_ne_zero] using hpath
        · simpa [Nat.pos_iff_ne_zero] using hmillis

end Period

namespace Manifest

/-! ### Segments -/

/-- A segment is read off the representation of its level. -/
theorem segment?_eq_some_iff {m : Manifest} {level number : Nat} {s : Segment} :
    m.segment? level number = some s ↔ number < m.currentTotal ∧
      ∃ r, (m.representations m.currentPeriod)[level]? = some r ∧
        ∃ path, r.media[number]? = some path ∧
          s = { uri := if isAbsolute path then path else join m.baseUrl path
                size := r.sizes[number]?
                duration := r.duration
                level
                bandwidth := r.bandwidth
                representation := r.id
                number } := by
  unfold segment?
  by_cases hnumber : number < m.currentTotal
  · rw [if_neg (Nat.not_le.mpr hnumber)]
    cases hr : (m.representations m.currentPeriod)[level]? with
    | none => simp
    | some r =>
        cases hpath : r.media[number]? with
        | none => simp [segmentUri?, hr, hpath]
        | some path =>
            simp only [segmentUri?, segmentSize?, hr, hpath, hnumber, Option.bind_eq_bind,
              Option.bind_some, Option.pure_def, Option.some.injEq, exists_eq_left', true_and]
            exact eq_comm
  · rw [if_pos (Nat.not_lt.mp hnumber)]
    simp [hnumber]

/-- A segment is the one that was asked for. -/
theorem segment?_spec {m : Manifest} {level number : Nat} {s : Segment}
    (h : m.segment? level number = some s) :
    s.level = level ∧ s.number = number ∧ number < m.currentTotal ∧
      ∃ r, (m.representations m.currentPeriod)[level]? = some r ∧ s.duration = r.duration := by
  obtain ⟨hnumber, r, hr, path, -, rfl⟩ := segment?_eq_some_iff.mp h
  exact ⟨rfl, rfl, hnumber, r, hr, rfl⟩

/-- A segment has the bandwidth of the representation of its level. -/
theorem bandwidth_of_segment? {m : Manifest} {level number : Nat} {s : Segment}
    (h : m.segment? level number = some s) :
    (m.representations m.currentPeriod)[level]?.map Representation.bandwidth =
      some s.bandwidth := by
  obtain ⟨-, r, hr, path, -, rfl⟩ := segment?_eq_some_iff.mp h
  rw [hr]
  rfl

/-- Every representation of the current period has the segments before the end of the content. -/
theorem currentTotal_le {m : Manifest} {r : Representation}
    (h : r ∈ m.representations m.currentPeriod) : m.currentTotal ≤ r.media.size := by
  have hreach := Period.le_totalSegments_iff (p := ⟨m.representations m.currentPeriod⟩)
    (List.ne_nil_of_mem h) m.currentTotal
  exact hreach.mp (Nat.le_refl _) r h

/-- There is a segment at every level and every number of the content. -/
theorem exists_segment? {m : Manifest} {level number : Nat} (hlevel : level < m.levels)
    (hnumber : number < m.currentTotal) : ∃ s, m.segment? level number = some s := by
  obtain ⟨r, hr⟩ : ∃ r, (m.representations m.currentPeriod)[level]? = some r :=
    ⟨_, List.getElem?_eq_getElem hlevel⟩
  have hsize := currentTotal_le (List.mem_of_getElem? hr)
  have hpath := Array.getElem?_eq_getElem (Nat.lt_of_lt_of_le hnumber hsize)
  exact ⟨_, segment?_eq_some_iff.mpr ⟨hnumber, r, hr, _, hpath, rfl⟩⟩

/-! ### Normalized manifests -/

/-- A manifest without defect has no period with one. -/
theorem defect?_of_normalize {raw m : Manifest} (h : raw.normalize = .ok m) :
    (∀ p ∈ raw.periods, ∃ index, p.defect? index = none) ∧
      m = { raw with periods := raw.periods.map Period.sort } := by
  -- The periods are tested together with their indices, which only the message needs.
  unfold normalize at h
  split at h
  · cases h
  · rename_i hdefect
    refine ⟨?_, (Except.ok.inj h).symm⟩
    unfold defect? at hdefect
    split at hdefect
    · cases hdefect
    · split at hdefect
      · cases hdefect
      · intro p hp
        obtain ⟨index, hindex⟩ := List.getElem?_of_mem hp
        have hmem : (p, index) ∈ raw.periods.zipIdx := by
          rw [List.mem_zipIdx_iff_getElem?]
          exact hindex
        exact ⟨index, List.findSome?_eq_none_iff.mp hdefect (p, index) hmem⟩

/-- The current period of a normalized manifest is one of its periods. -/
theorem currentPeriod_lt_of_normalize {raw m : Manifest} (h : raw.normalize = .ok m) :
    raw.currentPeriod < raw.periods.length := by
  unfold normalize at h
  split at h
  · cases h
  · rename_i hdefect
    unfold defect? at hdefect
    split at hdefect
    · cases hdefect
    · split at hdefect
      · cases hdefect
      · rename_i hrange
        exact Nat.not_le.mp hrange

/-- The representations of a period of a normalized manifest, in the order in which they were given.
-/
theorem representations_of_normalize {raw m : Manifest} (h : raw.normalize = .ok m)
    (period : Nat) :
    m.representations period = sortOn Representation.bandwidth (raw.representations period) := by
  obtain ⟨-, rfl⟩ := defect?_of_normalize h
  simp only [representations, List.getElem?_map]
  cases raw.periods[period]? with
  | none => rfl
  | some p => rfl

/-- The representations of a period that was accepted are all playable. -/
theorem sound_of_normalize {raw m : Manifest} (h : raw.normalize = .ok m) {period : Nat}
    (hperiod : period < raw.periods.length) :
    m.representations period ≠ [] ∧
      ∀ r ∈ m.representations period, 0 < r.media.size ∧ 0 < r.segmentMillis := by
  obtain ⟨index, hdefect⟩ := (defect?_of_normalize h).1 _ (List.getElem_mem hperiod)
  have hsound := Period.sound_of_defect? hdefect
  have hraw : raw.representations period = raw.periods[period].representations := by
    simp [representations, hperiod]
  have hperm : (m.representations period).Perm raw.periods[period].representations := by
    rw [representations_of_normalize h, hraw]
    exact sortOn_perm _ _
  constructor
  · intro hnone
    rw [hnone] at hperm
    exact hsound.1 hperm.nil_eq.symm
  · intro r hr
    exact hsound.2 r (hperm.mem_iff.mp hr)

/-- A normalized manifest has a level. -/
theorem levels_pos_of_normalize {raw m : Manifest} (h : raw.normalize = .ok m) : 0 < m.levels := by
  have hcurrent := currentPeriod_lt_of_normalize h
  have hsame : m.currentPeriod = raw.currentPeriod := by
    obtain ⟨-, rfl⟩ := defect?_of_normalize h
    rfl
  have hsound := sound_of_normalize h hcurrent
  rw [levels, hsame, List.length_pos_iff]
  exact hsound.1

/-- The representations of a normalized manifest stand in the order of their bandwidths. -/
theorem sorted_of_normalize {raw m : Manifest} (h : raw.normalize = .ok m) (period : Nat) :
    (m.representations period).Pairwise fun r r' => r.bandwidth ≤ r'.bandwidth := by
  rw [representations_of_normalize h]
  exact pairwise_sortOn Representation.bandwidth (raw.representations period)

/-- Every segment of a normalized manifest takes time to play. -/
theorem duration_pos_of_normalize {raw m : Manifest} (h : raw.normalize = .ok m) (period : Nat) :
    ∀ r ∈ m.representations period, 0 < r.duration := by
  intro r hr
  have hperiod : period < raw.periods.length := by
    rw [representations_of_normalize h, (sortOn_perm _ _).mem_iff, representations] at hr
    apply Nat.lt_of_not_le
    intro hbeyond
    rw [List.getElem?_eq_none hbeyond] at hr
    cases hr
  exact Nat.mul_pos (by decide) ((sound_of_normalize h hperiod).2 r hr).2

end Manifest

end LayerCast
