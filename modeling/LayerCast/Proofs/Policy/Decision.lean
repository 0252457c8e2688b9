import LayerCast.Proofs.Playback.Occupancy
import LayerCast.Proofs.Policy.Depth

/-!
# `LayerCast.Proofs.Policy.Decision`: which layers the layered policy asks for

`Layered.Needs` gives the number that a level needs next in terms of what is held and what was
played. So what can be asked for on a level lies behind all that is held on it (`lt_of_held`), and
with a distance from playback also behind all that was played (`not_isPlayed_of_requestable`).

`Layered.next_lowest_first` says that every decision has a result as long as the sums stay words,
that it is one of `Layered.Decided`, and that the batch is made of layers of one segment, in
ascending levels, none of which is held. `Layered.next_prefix_closed` says which of the levels that
lack segments are in the batch: those that lack the segment of the batch. A level below that lacks
another one is left out (`Layered.next_leaves_out`).
-/

set_option autoImplicit false

namespace LayerCast

/-- The level and the number of a segment. -/
def Segment.target (s : Segment) : Target := ⟨s.level, s.number⟩

/-- A computation has a result if its first part has one, and its second part for this one. -/
theorem Checked.exists_bind {α β : Type} {x : Checked α} {f : α → Checked β}
    (hx : ∃ a, x = .ok a) (hf : ∀ a, x = .ok a → ∃ b, f a = .ok b) : ∃ b, x >>= f = .ok b := by
  obtain ⟨a, ha⟩ := hx
  obtain ⟨b, hb⟩ := hf a ha
  exact ⟨b, Checked.bind_eq_ok_iff.mpr ⟨a, ha, hb⟩⟩

/-! ### What a level can be asked for -/

namespace Layered

variable {l : Layered} {m : Manifest} {h : Holdings} {level number top total : Nat}

/-- The number that a level needs next, in terms of what is held and played. -/
inductive Needs (l : Layered) (h : Holdings) (level : Nat) : Int → Prop
  /-- The level goes on behind the last segment. -/
  | behind {last : Nat} (held : h.last? level = some last) : Needs l h level (last + 1)
  /-- Nothing is held on the level, and nothing was played. -/
  | fresh (empty : h.last? level = none) (unplayed : h.lastConsumed = none) :
      Needs l h level (-1 + (if level = 0 then 1 else (l.gamma : Int)))
  /-- Nothing is held on the level, and something was played. -/
  | ahead {played : Nat} (empty : h.last? level = none) (consumed : h.lastConsumed = some played) :
      Needs l h level (played + (if level = 0 then 1 else (l.gamma : Int)))

/-- As long as all numbers are words with a sign, the number needed next is one of these. -/
theorem needs_of_nextNeeded (hwithin : h.Within total) (hword : total ≤ signed64) {needed : Int}
    (hneeded : l.nextNeeded h level = .ok needed) : l.Needs h level needed := by
  unfold nextNeeded at hneeded
  -- A level that holds something goes on there. An empty one starts by the distance from playback.
  split at hneeded
  · rename_i last hlast
    have hlt := hwithin.held level last (Holdings.mem_of_last? hlast).1
    rw [asSigned_of_lt (Nat.lt_of_lt_of_le hlt hword)] at hneeded
    obtain ⟨-, rfl⟩ := Checked.addSigned_eq_ok_iff.mp hneeded
    exact .behind hlast
  · rename_i hempty
    cases hconsumed : h.lastConsumed with
    | none =>
        rw [hconsumed] at hneeded
        obtain ⟨-, rfl⟩ := Checked.addSigned_eq_ok_iff.mp hneeded
        exact .fresh hempty hconsumed
    | some played =>
        have hlt := hwithin.consumed played hconsumed
        rw [hconsumed] at hneeded
        simp only [asSigned_of_lt (Nat.lt_of_lt_of_le hlt hword)] at hneeded
        obtain ⟨-, rfl⟩ := Checked.addSigned_eq_ok_iff.mp hneeded
        exact .ahead hempty hconsumed

/-- The number needed next is there as long as it is a word with a sign. -/
theorem exists_nextNeeded (hwithin : h.Within total) (hroom : total + l.gamma < signed64)
    (level : Nat) : ∃ needed, l.nextNeeded h level = .ok needed := by
  unfold nextNeeded
  -- The largest number that is compared is one held or played, plus the distance.
  split
  · rename_i last hlast
    have hlt := hwithin.held level last (Holdings.mem_of_last? hlast).1
    rw [asSigned_of_lt (by omega)]
    exact ⟨_, Checked.addSigned_eq_ok_iff.mpr ⟨by omega, rfl⟩⟩
  · cases hconsumed : h.lastConsumed with
    | none =>
        refine ⟨_, Checked.addSigned_eq_ok_iff.mpr ⟨?_, rfl⟩⟩
        show -1 + _ < _
        split <;> omega
    | some played =>
        have hlt := hwithin.consumed played hconsumed
        simp only [asSigned_of_lt (show played < signed64 by omega)]
        exact ⟨_, Checked.addSigned_eq_ok_iff.mpr ⟨by split <;> omega, rfl⟩⟩

/-- What can be asked for on a level is what the level needs next. -/
theorem needs_of_requestable (hwithin : h.Within total) (hword : total ≤ signed64)
    (h' : l.requestable m h level = .ok (some number)) :
    l.Needs h level number ∧ number < m.currentTotal := by
  obtain ⟨needed, hneeded, h'⟩ := Checked.bind_eq_ok_iff.mp h'
  have hneeds := needs_of_nextNeeded hwithin hword hneeded
  have h' := Except.ok.inj h'
  split at h'
  · rename_i hrange
    obtain rfl := Option.some.inj h'
    rw [Int.toNat_of_nonneg hrange.1]
    exact ⟨hneeds, by omega⟩
  · cases h'

/-- Whether a layer may be requested can be told, since no number that is compared leaves its
word. -/
theorem exists_requestable (hwithin : h.Within total) (hroom : total + l.gamma < signed64)
    (level : Nat) : ∃ number?, l.requestable m h level = .ok number? := by
  obtain ⟨needed, hneeded⟩ := exists_nextNeeded hwithin hroom level
  exact ⟨_, Checked.bind_eq_ok_iff.mpr ⟨needed, hneeded, rfl⟩⟩

/-- What can be asked for on a level lies behind all that is held on it. -/
theorem lt_of_held (hwithin : h.Within total) (hword : total ≤ signed64)
    (h' : l.requestable m h level = .ok (some number)) {held : Nat}
    (hheld : (level, held) ∈ h.held) : held < number := by
  obtain ⟨hneeds, -⟩ := needs_of_requestable hwithin hword h'
  generalize hneeded : (number : Int) = needed at hneeds
  cases hneeds with
  | behind hlast =>
      have hle := (Holdings.mem_of_last? hlast).2 held hheld
      omega
  | fresh hempty | ahead hempty => exact absurd hheld (Holdings.not_mem_of_last? hempty)

/-- What can be asked for on a level is not held on it. -/
theorem not_contains_of_requestable (hwithin : h.Within total) (hword : total ≤ signed64)
    (h' : l.requestable m h level = .ok (some number)) : h.contains level number = false := by
  refine decide_eq_false fun hheld => ?_
  exact absurd (lt_of_held hwithin hword h' hheld) (Nat.lt_irrefl number)

/-! ### Batches -/

/-- A batch for a level that is asked for first. -/
structure BatchFor (m : Manifest) (h : Holdings) (target : Target) (batch : List Segment) :
    Prop where
  /-- The level that is asked for first is the lowest one. -/
  first : batch.head?.map Segment.target = some target
  /-- All layers are of one segment, which the content has. -/
  number : target.number < m.currentTotal ∧ ∀ s ∈ batch, s.number = target.number
  sorted : batch.Pairwise fun s t => s.level < t.level
  levels : ∀ s ∈ batch, s.level < m.levels
  /-- Nothing that is held is asked for. -/
  fresh : ∀ s ∈ batch, h.contains s.level s.number = false

/-- All layers of a batch are segments of the content that could be asked for. -/
theorem requestable_of_next {batch : List Segment} (hnext : l.next m h = .ok batch) :
    ∀ s ∈ batch, m.segment? s.level s.number = some s ∧
      l.requestable m h s.level = .ok (some s.number) := by
  obtain ⟨number, hbatch⟩ := next_spec hnext
  intro s hs
  obtain ⟨hsegment, hrequestable⟩ := hbatch s hs
  obtain ⟨-, rfl, -⟩ := Manifest.segment?_spec hsegment
  exact ⟨hsegment, hrequestable⟩

/-- A batch for a level that is filled has the segment of this level, and those of the same number
on the higher levels in use that lack it. -/
theorem next_of_fill (hsome : 0 < m.levels) {target : Target} {batch : List Segment}
    (hdecide : l.decide m h = .ok (some (.fill target top))) (hnext : l.next m h = .ok batch) :
    (∃ lowest others, batch = lowest :: others ∧
      m.segment? target.level target.number = some lowest ∧
      (others.map Segment.level).Sublist
        (List.range' (target.level + 1) (highestInUse m h - target.level))) ∧
    ∀ s, s ∈ batch ↔ (target.level ≤ s.level ∧ s.level ≤ highestInUse m h) ∧
      l.Lacks m h top s.level target.number ∧ m.segment? s.level target.number = some s := by
  obtain ⟨choice?, hchoice, hnext⟩ := Checked.bind_eq_ok_iff.mp hnext
  obtain rfl := Except.ok.inj (hdecide.symm.trans hchoice)
  obtain ⟨others, hothers, hnext⟩ := Checked.bind_eq_ok_iff.mp hnext
  obtain ⟨lowest, hlowest⟩ := exists_of_decide hsome hdecide
  have hlowest : m.segment? target.level target.number = some lowest := hlowest
  have hfirst := (decided_of_decide hdecide).isFirst
  obtain rfl : lowest :: others = batch := by
    have hbatch := Except.ok.inj hnext
    rwa [hlowest] at hbatch
  refine ⟨⟨lowest, others, rfl, hlowest, riders_sublist hothers⟩, fun s => ?_⟩
  obtain ⟨hlevel, -⟩ := Manifest.segment?_spec hlowest
  have hinUse := hfirst.inUse
  rw [List.mem_cons, mem_riders_iff hothers, List.mem_range'_1]
  constructor
  · rintro (rfl | ⟨hrange, hlacks, hsegment⟩)
    · rw [hlevel]
      exact ⟨⟨Nat.le_refl _, hinUse⟩, hfirst.lacks, hlowest⟩
    · exact ⟨by omega, hlacks, hsegment⟩
  · -- The target is the lowest layer of the batch, and the riders lie above it.
    rintro ⟨hrange, hlacks, hsegment⟩
    by_cases hsame : s.level = target.level
    · rw [hsame, hlowest] at hsegment
      exact .inl (Option.some.inj hsegment).symm
    · exact .inr ⟨by omega, hlacks, hsegment⟩

/-- Where nothing is decided on, nothing is asked for. -/
theorem next_of_decide_none {batch : List Segment} (hdecide : l.decide m h = .ok none)
    (hnext : l.next m h = .ok batch) : batch = [] := by
  obtain ⟨choice?, hchoice, hnext⟩ := Checked.bind_eq_ok_iff.mp hnext
  obtain rfl := Except.ok.inj (hdecide.symm.trans hchoice)
  exact (Except.ok.inj hnext).symm

/-- The first layer of a batch is the one that is asked for first, the others are of the same number
and lie above it in the order of their levels. -/
theorem order_of_next (hsome : 0 < m.levels) {choice : LayerChoice} {batch : List Segment}
    (hdecide : l.decide m h = .ok (some choice)) (hnext : l.next m h = .ok batch) :
    batch.head?.map Segment.target = some choice.target ∧
      (∀ s ∈ batch, s.number = choice.target.number) ∧
      batch.Pairwise fun s t => s.level < t.level := by
  cases choice with
  | raise target =>
      obtain ⟨lowest, hlowest⟩ := exists_of_decide hsome hdecide
      have hlowest : m.segment? target.level target.number = some lowest := hlowest
      obtain ⟨hlevel, hnumber, -⟩ := Manifest.segment?_spec hlowest
      obtain rfl : [lowest] = batch := by
        obtain ⟨choice?, hchoice, hnext⟩ := Checked.bind_eq_ok_iff.mp hnext
        obtain rfl := Except.ok.inj (hdecide.symm.trans hchoice)
        have hbatch := Except.ok.inj hnext
        rwa [hlowest] at hbatch
      exact ⟨congrArg some (congrArg₂ Target.mk hlevel hnumber),
        List.forall_mem_singleton.mpr hnumber, List.pairwise_singleton _ _⟩
  | fill target top =>
      obtain ⟨⟨lowest, others, rfl, hlowest, hsub⟩, hmem⟩ := next_of_fill hsome hdecide hnext
      obtain ⟨hlevel, hnumber, -⟩ := Manifest.segment?_spec hlowest
      refine ⟨congrArg some (congrArg₂ Target.mk hlevel hnumber), fun s hs => ?_, ?_⟩
      · exact (Manifest.segment?_spec ((hmem s).mp hs).2.2).2.1
      · refine List.pairwise_map.mp (List.pairwise_cons.mpr ⟨fun level hmember => ?_, ?_⟩)
        · have hrange := List.mem_range'_1.mp (hsub.subset hmember)
          omega
        · -- The riders are looked for level by level, from below.
          exact List.Pairwise.sublist hsub List.pairwise_lt_range'

/-- What is asked for is a batch for the level that is asked for first. -/
theorem batchFor_of_next (hsome : 0 < m.levels) (hwithin : h.Within total)
    (hword : total ≤ signed64) {choice : LayerChoice} {batch : List Segment}
    (hdecide : l.decide m h = .ok (some choice)) (hnext : l.next m h = .ok batch) :
    BatchFor m h choice.target batch := by
  have hall := requestable_of_next hnext
  obtain ⟨hfirst, hnumber, hsorted⟩ := order_of_next hsome hdecide hnext
  refine ⟨hfirst, ⟨?_, hnumber⟩, hsorted, fun s hs => ?_, fun s hs => ?_⟩
  · obtain ⟨lowest, hlowest, -⟩ := Option.map_eq_some_iff.mp hfirst
    have hmem := List.mem_of_mem_head? hlowest
    rw [← hnumber lowest hmem]
    exact lt_of_requestable (hall lowest hmem).2
  · obtain ⟨-, -, -, r, hr, -⟩ := Manifest.segment?_spec (hall s hs).1
    exact (List.getElem?_eq_some_iff.mp hr).1
  · exact not_contains_of_requestable hwithin hword (hall s hs).2

/-! ### Ahead of playback -/

/-- What can be asked for on a level is a word with a sign. -/
theorem lt_signed64_of_requestable (h' : l.requestable m h level = .ok (some number)) :
    number < signed64 := by
  obtain ⟨needed, hneeded, h'⟩ := Checked.bind_eq_ok_iff.mp h'
  have hlt : needed < signed64 := by
    unfold nextNeeded at hneeded
    split at hneeded
    · obtain ⟨hlt, rfl⟩ := Checked.addSigned_eq_ok_iff.mp hneeded
      exact hlt
    · obtain ⟨hlt, rfl⟩ := Checked.addSigned_eq_ok_iff.mp hneeded
      exact hlt
  have h' := Except.ok.inj h'
  split at h'
  · obtain rfl := Option.some.inj h'
    omega
  · cases h'

/-- With a distance from playback, what can be asked for on a level was not played. On an empty
level above the base layer the distance alone sees to that. -/
theorem not_isPlayed_of_requestable (hahead : h.Ahead) (hwithin : h.Within signed64)
    (hgamma : 0 < l.gamma) (h' : l.requestable m h level = .ok (some number)) :
    h.isPlayed number = false := by
  obtain ⟨hneeds, -⟩ := needs_of_requestable hwithin (Nat.le_refl _) h'
  rw [Holdings.isPlayed_eq_false_iff]
  intro last hlast
  generalize hneeded : (number : Int) = needed at hneeds
  -- A level that holds something asks for more than it holds, and an empty one for more than was
  -- played.
  cases hneeds with
  | @behind held hheld =>
      have hnew := hahead.held level held (Holdings.mem_of_last? hheld).1
      have hlt := Holdings.isPlayed_eq_false_iff.mp hnew last hlast
      omega
  | fresh hempty hunplayed =>
      rw [hlast] at hunplayed
      cases hunplayed
  | @ahead played hempty hplayed =>
      obtain rfl := Option.some.inj (hlast.symm.trans hplayed)
      split at hneeded <;> omega

/-- **With a distance from playback the policy asks for what is new**: no layer of a batch was
played or is held. -/
theorem new_of_next (hahead : h.Ahead) (hwithin : h.Within signed64) (hgamma : 0 < l.gamma)
    {batch : List Segment} (hnext : l.next m h = .ok batch) :
    ∀ s ∈ batch, h.isPlayed s.number = false ∧ h.contains s.level s.number = false := by
  intro s hs
  have hrequestable := (requestable_of_next hnext s hs).2
  exact ⟨not_isPlayed_of_requestable hahead hwithin hgamma hrequestable,
    not_contains_of_requestable hwithin (Nat.le_refl _) hrequestable⟩

/-! ### Decisions have results -/

/-- Whether a level lacks a segment can be told as long as the sums are words. -/
theorem exists_lacking (hnumber : ∃ number?, l.requestable m h level = .ok number?)
    (hwanted : ∃ wanted, l.desired level top = .ok wanted) :
    ∃ number?, l.lacking m h top level = .ok number? := by
  refine Checked.exists_bind ?_ fun starved _ => ?_
  · exact Checked.exists_bind hwanted fun wanted _ => ⟨_, rfl⟩
  · split
    · exact hnumber
    · exact ⟨none, rfl⟩

/-- The first layer that lacks a segment can be found if each layer can be looked at. -/
theorem exists_firstLacking {levels : List Nat}
    (hlacking : ∀ level ∈ levels, ∃ number?, l.lacking m h top level = .ok number?) :
    ∃ target?, l.firstLacking m h top levels = .ok target? := by
  induction levels with
  | nil => exact ⟨none, rfl⟩
  | cons level rest ih =>
      obtain ⟨hfirst, hrest⟩ := List.forall_mem_cons.mp hlacking
      refine Checked.exists_bind hfirst fun number? _ => ?_
      cases number? with
      | none => exact ih hrest
      | some number => exact ⟨_, rfl⟩

/-- So can those that ride along. -/
theorem exists_riders {levels : List Nat}
    (hlacking : ∀ level ∈ levels, ∃ number?, l.lacking m h top level = .ok number?) :
    ∃ batch, l.riders m h top number levels = .ok batch := by
  induction levels with
  | nil => exact ⟨[], rfl⟩
  | cons level rest ih =>
      obtain ⟨hfirst, hrest⟩ := List.forall_mem_cons.mp hlacking
      refine Checked.exists_bind hfirst fun lacks _ => ?_
      exact Checked.exists_bind (ih hrest) fun others _ => ⟨_, rfl⟩

/-- How much the levels in use want against the tops of both phases is a word. -/
def Sized (l : Layered) (m : Manifest) (h : Holdings) : Prop :=
  ∀ level ≤ highestInUse m h, ∀ top ∈ [highestInUse m h, highestInUse m h + 2],
    ∃ wanted, l.desired level top = .ok wanted

/-- As long as the sums are words, what each level in use lacks in each phase can be told. -/
theorem Sized.lacking (hsized : l.Sized m h) (hwithin : h.Within total)
    (hroom : total + l.gamma < signed64)
    (htop : top ∈ [highestInUse m h, highestInUse m h + 2]) :
    ∀ level ≤ highestInUse m h, ∃ number?, l.lacking m h top level = .ok number? :=
  fun level hle =>
    exists_lacking (exists_requestable hwithin hroom level) (hsized level hle top htop)

/-- The choice as a whole has a result, whichever layer it falls on. -/
theorem exists_decide (hwithin : h.Within total) (hroom : total + l.gamma < signed64)
    (hsized : l.Sized m h) : ∃ choice?, l.decide m h = .ok choice? := by
  -- Both searches look at the same levels, with another top.
  have hphase : ∀ top ∈ [highestInUse m h, highestInUse m h + 2],
      ∃ target?, l.firstLacking m h top (List.range (highestInUse m h + 1)) = .ok target? :=
    fun top htop => exists_firstLacking fun level hlevel =>
      hsized.lacking hwithin hroom htop level (Nat.le_of_lt_succ (List.mem_range.mp hlevel))
  refine Checked.exists_bind (hphase _ (by simp)) fun steady? _ => ?_
  cases steady? with
  | some target => exact ⟨_, rfl⟩
  | none =>
      refine Checked.exists_bind (hphase _ (by simp)) fun growing? _ => ?_
      cases growing? with
      | some target => exact ⟨_, rfl⟩
      | none =>
          simp only
          split
          · exact Checked.exists_bind (exists_requestable hwithin hroom _) fun number? _ => ⟨_, rfl⟩
          · exact ⟨none, rfl⟩

/-- What is decided on can be asked for as long as the sums are words. -/
theorem exists_next (hwithin : h.Within total) (hroom : total + l.gamma < signed64)
    (hsized : l.Sized m h) : ∃ batch, l.next m h = .ok batch := by
  refine Checked.exists_bind (exists_decide hwithin hroom hsized) fun choice? hdecide => ?_
  cases choice? with
  | none => exact ⟨[], rfl⟩
  | some choice =>
      cases choice with
      | raise target => exact ⟨_, rfl⟩
      | fill target top =>
          have htop : top ∈ [highestInUse m h, highestInUse m h + 2] := by
            cases decided_of_decide hdecide <;> simp
          refine Checked.exists_bind (exists_riders fun level hlevel => ?_) fun others _ => ⟨_, rfl⟩
          have := List.mem_range'_1.mp hlevel
          exact hsized.lacking hwithin hroom htop level (by omega)

/-- **The layers that are needed most come first.** All that is held and was played lies within the
content, and the sums of the decision are words. Then the decision has a result, and so has the
batch. In the steady and in the growing phase every level below the one that is asked for is sated,
and a later phase begins when all levels in use are sated against the tops of the earlier ones. The
layers of a batch are of one segment of the content, in ascending levels, and none of them is held.
The batch is empty only where nothing can be asked for. -/
theorem next_lowest_first {raw : Manifest} (hnormal : raw.normalize = .ok m)
    (hwithin : h.Within m.currentTotal) (hroom : m.currentTotal + l.gamma < signed64)
    (hsized : l.Sized m h) :
    ∃ choice? batch, l.decide m h = .ok choice? ∧ l.next m h = .ok batch ∧
      l.Decided m h choice? ∧ (choice? = none → batch = []) ∧
      ∀ choice, choice? = some choice → BatchFor m h choice.target batch := by
  have hsome := Manifest.levels_pos_of_normalize hnormal
  obtain ⟨choice?, hdecide⟩ := exists_decide hwithin hroom hsized
  obtain ⟨batch, hnext⟩ := exists_next hwithin hroom hsized
  refine ⟨choice?, batch, hdecide, hnext, decided_of_decide hdecide, ?_, ?_⟩
  · rintro rfl
    exact next_of_decide_none hdecide hnext
  · rintro choice rfl
    exact batchFor_of_next hsome hwithin (by omega) hdecide hnext

/-- Three layers of as many segments. -/
def sampleLayers : Manifest :=
  let layer (level : Nat) : Representation :=
    { id := "l" ++ toString level, bandwidth := 1000 * (level + 1), segmentMillis := 2000
      media := Array.replicate 20 "s" }
  { baseUrl := "http://a", periods := [⟨[layer 0, layer 1, layer 2]⟩] }

/-- The first five segments are held on the base layer, the first three on the layer above it, and
on the top layer only the fifth one. -/
def sampleHoldings : Holdings :=
  { held := [(0, 0), (0, 1), (0, 2), (0, 3), (0, 4), (1, 0), (1, 1), (1, 2), (2, 4)] }

/-- The sample layers are in order already. -/
theorem normalize_sampleLayers : sampleLayers.normalize = .ok sampleLayers :=
  Checked.eq_ok_of_toOption (by decide +kernel)

/-- The base layer is the first one that lacks a segment of the sample. -/
theorem next_lowest_first_sample :
    ∃ l batch, l = ofSettings {} ∧ l.next sampleLayers sampleHoldings = .ok batch ∧
      l.decide sampleLayers sampleHoldings = .ok (some (.fill ⟨0, 5⟩ 2)) ∧
      BatchFor sampleLayers sampleHoldings ⟨0, 5⟩ batch := by
  have hwithin : sampleHoldings.Within sampleLayers.currentTotal := by
    have htotal : sampleLayers.currentTotal = 20 := by decide +kernel
    rw [htotal]
    refine ⟨fun level number hheld => ?_, fun number hnone => nomatch hnone⟩
    have hall : ∀ held ∈ sampleHoldings.held, held.2 < 20 := by decide
    exact hall (level, number) hheld
  have hsized : (ofSettings {}).Sized sampleLayers sampleHoldings := by
    intro level hle top htop
    have hall : ∀ level ∈ List.range 3, ∀ top ∈ [2, 4],
        ((ofSettings {}).desired level top).toOption.isSome = true := by decide +kernel
    have hhighest : highestInUse sampleLayers sampleHoldings = 2 := by decide +kernel
    rw [hhighest] at hle htop
    have hwanted := hall level (List.mem_range.mpr (by omega)) top htop
    obtain ⟨wanted, hwanted⟩ := Option.isSome_iff_exists.mp hwanted
    exact ⟨wanted, Checked.eq_ok_of_toOption hwanted⟩
  have hdecide : (ofSettings {}).decide sampleLayers sampleHoldings =
      .ok (some (.fill ⟨0, 5⟩ 2)) := Checked.eq_ok_of_toOption (by decide +kernel)
  obtain ⟨choice?, batch, hchoice, hnext, -, -, hbatch⟩ :=
    next_lowest_first normalize_sampleLayers hwithin (by decide +kernel) hsized
  obtain rfl := Except.ok.inj (hdecide.symm.trans hchoice)
  exact ⟨_, batch, rfl, hnext, hdecide, hbatch _ rfl⟩

/-! ### Which levels ride along -/

/-- **Batches are closed below for one segment.** A level below one of the batch may lack a segment
against the same top. It is in the batch exactly if it lacks the segment of the batch. A level that
lacks another segment is left out, and it lies above the lowest level of the batch. -/
theorem next_prefix_closed {raw : Manifest} (hnormal : raw.normalize = .ok m) {target : Target}
    {batch : List Segment} (hdecide : l.decide m h = .ok (some (.fill target top)))
    (hnext : l.next m h = .ok batch) {s : Segment} (hs : s ∈ batch) (hbelow : level < s.level)
    (hlacks : l.Lacks m h top level number) :
    (∀ t ∈ batch, target.level ≤ t.level ∧ t.number = target.number) ∧
      ((∃ t ∈ batch, t.level = level) ↔ number = target.number) ∧
      (number ≠ target.number → target.level < level) := by
  have hsome := Manifest.levels_pos_of_normalize hnormal
  have hfirst := (decided_of_decide hdecide).isFirst
  obtain ⟨-, hmem⟩ := next_of_fill hsome hdecide hnext
  have hsame : ∀ {n : Nat}, l.Lacks m h top level n → number = n := fun hn =>
    Option.some.inj (Except.ok.inj (hlacks.2.symm.trans hn.2))
  -- All levels below the one that is asked for first are sated.
  have hfrom : target.level ≤ level := by
    by_contra hlt
    exact hlacks.not_sated (hfirst.below level (Nat.lt_of_not_le hlt))
  refine ⟨fun t ht => ?_, ⟨?_, ?_⟩, fun hne => ?_⟩
  · obtain ⟨hrange, -, hsegment⟩ := (hmem t).mp ht
    exact ⟨hrange.1, (Manifest.segment?_spec hsegment).2.1⟩
  · rintro ⟨t, ht, rfl⟩
    exact hsame ((hmem t).mp ht).2.1
  · rintro rfl
    have hinUse : level ≤ highestInUse m h := by
      have := ((hmem s).mp hs).1.2
      omega
    have hlevels : level < m.levels := by
      have : highestInUse m h ≤ m.levels - 1 := Nat.min_le_right ..
      omega
    obtain ⟨t, ht⟩ := Manifest.exists_segment? hlevels (lt_of_requestable hlacks.2)
    obtain ⟨rfl, -⟩ := Manifest.segment?_spec ht
    exact ⟨t, (hmem t).mpr ⟨⟨hfrom, hinUse⟩, hlacks, ht⟩, rfl⟩
  · refine Nat.lt_of_le_of_ne hfrom fun heq => hne ?_
    rw [← heq] at hsame
    exact hsame hfirst.lacks

/-- Of the sample the top layer rides along with the base layer, and the layer between them, which
lacks an earlier segment, is left out. -/
theorem next_leaves_out :
    (ofSettings {}).decide sampleLayers sampleHoldings = .ok (some (.fill ⟨0, 5⟩ 2)) ∧
      (ofSettings {}).Lacks sampleLayers sampleHoldings 2 1 3 ∧
      ∃ batch, (ofSettings {}).next sampleLayers sampleHoldings = .ok batch ∧
        batch.map Segment.target = [⟨0, 5⟩, ⟨2, 5⟩] := by
  refine ⟨Checked.eq_ok_of_toOption (by decide +kernel),
    ⟨Checked.eq_ok_of_toOption (by decide +kernel),
      Checked.eq_ok_of_toOption (by decide +kernel)⟩, ?_⟩
  exact Checked.exists_of_map_toOption (f := List.map Segment.target) (by decide +kernel)

/-- The layer of the sample that is left out lies above the lowest one of the batch. -/
theorem next_prefix_closed_sample :
    ∃ batch, (ofSettings {}).next sampleLayers sampleHoldings = .ok batch ∧
      (∃ s ∈ batch, s.level = 2) ∧ ¬(∃ t ∈ batch, t.level = 1) ∧
      ∀ t ∈ batch, t.number = 5 := by
  have hdecide : (ofSettings {}).decide sampleLayers sampleHoldings =
      .ok (some (.fill ⟨0, 5⟩ 2)) := Checked.eq_ok_of_toOption (by decide +kernel)
  have hlacks : (ofSettings {}).Lacks sampleLayers sampleHoldings 2 1 3 :=
    ⟨Checked.eq_ok_of_toOption (by decide +kernel), Checked.eq_ok_of_toOption (by decide +kernel)⟩
  obtain ⟨batch, hnext, htop⟩ := Checked.exists_of_map_toOption
    (x := (ofSettings {}).next sampleLayers sampleHoldings)
    (f := fun batch => batch.any (·.level == 2)) (b := true) (by decide +kernel)
  obtain ⟨s, hs, hlevel⟩ := List.any_eq_true.mp htop
  have hlevel : s.level = 2 := eq_of_beq hlevel
  obtain ⟨hall, hiff, -⟩ := next_prefix_closed normalize_sampleLayers hdecide hnext hs
    (show 1 < s.level by omega) hlacks
  refine ⟨batch, hnext, ⟨s, hs, hlevel⟩, fun hthere => ?_, fun t ht => (hall t ht).2⟩
  exact absurd (hiff.mp hthere) (by decide)

end Layered

end LayerCast
