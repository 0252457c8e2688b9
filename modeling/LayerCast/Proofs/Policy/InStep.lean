import LayerCast.Proofs.Policy.Choice
import LayerCast.Proofs.Policy.Nature
import LayerCast.Proofs.Playback.Playout

/-!
# `LayerCast.Proofs.Policy.InStep`: policies in step with the playback

Every policy has its own way to know which segment comes next: the layered one looks at the base
layers that are held and at the last segment that was played, the others count. `Policy.InStep`
says that this knowledge agrees with the playback. The playback has credited the segments before
`next`, and the layers in `out` were requested and are neither credited nor given up.

A policy in step asks for the segment `next` whenever it asks for a base layer or is not layered
(`InStep.requested`), and it is exhausted only when everything was credited
(`InStep.isExhausted`). It stays in step with everything that it is told: with a rejection
(`InStep.failed`), with a salvage (`InStep.abandoned`), and with the layers that are taken in
(`InStep.taken`, `InStep.passedBy`).
-/

set_option autoImplicit false

namespace LayerCast

/-! ### What is held of the base layer -/

namespace Holdings

/-- Of the base layer the segments from `first` up to, and without, `next` are held. -/
def HoldsBase (held : List (Nat × Nat)) (first next : Nat) : Prop :=
  ∀ number, (0, number) ∈ held ↔ first ≤ number ∧ number < next

/-- The numbers of a level are those that are held at it. -/
theorem mem_numbersAt {h : Holdings} {level number : Nat} :
    number ∈ h.numbersAt level ↔ (level, number) ∈ h.held := by
  simp [numbersAt]

/-- The last base layer that is held is the one before `next`. -/
theorem HoldsBase.last? {h : Holdings} {first next : Nat} (hbase : HoldsBase h.held first next) :
    h.last? 0 = if first < next then some (next - 1) else none := by
  rw [Holdings.last?]
  by_cases hsome : first < next
  · rw [if_pos hsome, List.max?_eq_some_iff]
    refine ⟨?_, ?_⟩
    · rw [mem_numbersAt, hbase]
      omega
    · intro number hnumber
      rw [mem_numbersAt, hbase] at hnumber
      omega
  · rw [if_neg hsome, List.max?_eq_none_iff, List.eq_nil_iff_forall_not_mem]
    intro number hnumber
    rw [mem_numbersAt, hbase] at hnumber
    omega

/-- The holdings with a layer recorded, if that is possible. -/
def recorded (number : Nat) (h : Holdings) (level : Nat) : Holdings :=
  (h.record? level number).getD h

/-- Recording a layer of a segment adds it, unless the segment was played. -/
theorem mem_held_recorded (h : Holdings) (number top level n : Nat) :
    (level, n) ∈ (h.recorded number top).held ↔
      (level, n) ∈ h.held ∨ (n = number ∧ level = top ∧ h.isPlayed number = false) := by
  rw [recorded]
  cases hrecord : h.record? top number with
  | none =>
      -- The segment was played, or the layer is held already.
      have hheld : h.isPlayed number = false → (top, number) ∈ h.held := by
        intro hfresh
        rw [record?, hfresh, Bool.false_or] at hrecord
        split at hrecord
        · rename_i hcontains
          exact of_decide_eq_true hcontains
        · cases hrecord
      constructor
      · exact .inl
      · rintro (hmem | ⟨rfl, rfl, hfresh⟩)
        · exact hmem
        · exact hheld hfresh
  | some k =>
      obtain ⟨⟨hfresh, -⟩, rfl⟩ := record?_eq_some_iff.mp hrecord
      simp only [Option.getD_some, List.mem_cons, Prod.mk.injEq, hfresh, and_true]
      rw [or_comm, and_comm]

/-- Recording layers changes nothing but what is held. -/
theorem foldl_recorded_eq (number : Nat) (levels : List Nat) (h : Holdings) :
    ∃ held, levels.foldl (recorded number) h = { h with held } := by
  induction levels generalizing h with
  | nil => exact ⟨h.held, rfl⟩
  | cons level rest ih =>
      obtain ⟨held, hheld⟩ := ih (h.recorded number level)
      refine ⟨held, hheld.trans ?_⟩
      unfold recorded
      cases hrecord : h.record? level number with
      | none => rfl
      | some k =>
          obtain ⟨-, rfl⟩ := record?_eq_some_iff.mp hrecord
          rfl

/-- What was played does not change when layers are recorded. -/
theorem isPlayed_recorded (h : Holdings) (number top n : Nat) :
    (h.recorded number top).isPlayed n = h.isPlayed n := by
  rw [recorded]
  cases hrecord : h.record? top number with
  | none => rfl
  | some k =>
      obtain ⟨-, rfl⟩ := record?_eq_some_iff.mp hrecord
      rfl

/-- Recording several layers of a segment adds these, unless the segment was played. -/
theorem mem_held_foldl_recorded (levels : List Nat) (h : Holdings) (number level n : Nat) :
    (level, n) ∈ (levels.foldl (recorded number) h).held ↔
      (level, n) ∈ h.held ∨ (n = number ∧ level ∈ levels ∧ h.isPlayed number = false) := by
  induction levels generalizing h with
  | nil => simp
  | cons top rest ih =>
      rw [List.foldl_cons, ih, mem_held_recorded, isPlayed_recorded, List.mem_cons, or_and_right,
        and_or_left, or_assoc]

/-- Recording layers of a segment leaves what is queued for playout. -/
theorem playout_foldl_recorded (levels : List Nat) (h : Holdings) (number : Nat) :
    (levels.foldl (recorded number) h).playout = h.playout := by
  induction levels generalizing h with
  | nil => rfl
  | cons top rest ih =>
      rw [List.foldl_cons, ih, recorded]
      cases hrecord : h.record? top number with
      | none => rfl
      | some k =>
          obtain ⟨-, rfl⟩ := record?_eq_some_iff.mp hrecord
          rfl

/-- No layer is recorded twice. -/
theorem nodup_foldl_recorded (levels : List Nat) {h : Holdings} (hnodup : h.held.Nodup)
    (number : Nat) : (levels.foldl (recorded number) h).held.Nodup := by
  induction levels generalizing h with
  | nil => exact hnodup
  | cons top rest ih =>
      refine ih ?_
      rw [recorded]
      cases hrecord : h.record? top number with
      | none => exact hnodup
      | some k =>
          obtain ⟨⟨-, hnew⟩, rfl⟩ := record?_eq_some_iff.mp hrecord
          exact List.nodup_cons.mpr ⟨of_decide_eq_false hnew, hnodup⟩

/-- Recording layers leaves the queue. -/
theorem Queues.recorded {h : Holdings} {first next time : Nat} (hq : h.Queues first next time)
    (number : Nat) (levels : List Nat) :
    (levels.foldl (Holdings.recorded number) h).Queues first next time := by
  induction levels generalizing h with
  | nil => exact hq
  | cons level rest ih => exact ih (hq.record level number)

end Holdings

/-! ### The layered policy -/

namespace Layered

variable {l : Layered} {m : Manifest} {h : Holdings} {first next time : Nat}

/-- The base layer needs the segment `next`. -/
theorem nextNeeded_base (hq : h.Queues first next time)
    (hbase : Holdings.HoldsBase h.held first next) (hword : next ≤ signed64) {needed : Int}
    (hneeded : l.nextNeeded h 0 = .ok needed) :
    needed = next ∧ next < signed64 := by
  have horder := hq.order
  unfold nextNeeded at hneeded
  rw [hbase.last?, hq.consumed] at hneeded
  by_cases hsome : first < next
  · -- What comes next follows the last base layer that is held.
    rw [if_pos hsome] at hneeded
    obtain ⟨hlt, rfl⟩ := Checked.addSigned_eq_ok_iff.mp hneeded
    have hlast : asSigned (next - 1) = ((next - 1 : Nat) : Int) := asSigned_of_lt (by omega)
    rw [hlast] at hlt ⊢
    omega
  · -- No base layer is held, so that what comes next follows the last segment played.
    rw [if_neg hsome] at hneeded
    obtain ⟨hlt, rfl⟩ := Checked.addSigned_eq_ok_iff.mp hneeded
    simp only [if_pos] at hlt ⊢
    by_cases hfirst : first = 0
    · -- Nothing was played yet.
      simp only [if_pos hfirst] at hlt ⊢
      omega
    · have hlast : asSigned (first - 1) = ((first - 1 : Nat) : Int) := asSigned_of_lt (by omega)
      simp only [if_neg hfirst, hlast] at hlt ⊢
      omega

/-- If a base layer can be asked for, then it is that of the segment `next`. -/
theorem requestable_base (hq : h.Queues first next time)
    (hbase : Holdings.HoldsBase h.held first next) (hword : next ≤ signed64) {number? : Option Nat}
    (hnumber : l.requestable m h 0 = .ok number?) :
    (∀ number, number? = some number → number = next ∧ next < signed64) ∧
      (number? = none → m.currentTotal ≤ next) := by
  unfold requestable at hnumber
  obtain ⟨needed, hneeded, hnumber⟩ := Checked.bind_eq_ok_iff.mp hnumber
  obtain ⟨rfl, hlt⟩ := nextNeeded_base hq hbase hword hneeded
  obtain rfl := Except.ok.inj hnumber
  refine ⟨?_, ?_⟩
  · intro number h
    split at h
    · obtain rfl := Option.some.inj h
      exact ⟨Int.toNat_natCast next, hlt⟩
    · cases h
  · intro h
    split at h
    · cases h
    · omega

end Layered

/-! ### All policies -/

namespace Policy

/-- What a policy knows agrees with a playback that holds `held`, has played the segments before
`first` and credited those before `next`, while the layers in `out` are requested. -/
def InStep (p : Policy) (held : List (Nat × Nat)) (first next : Nat) (out : List Segment) : Prop :=
  match p with
  | .layered _ =>
    Holdings.HoldsBase held first next ∧ next ≤ signed64 ∧
      ∀ s ∈ out, s.level = 0 → s.number = next ∧ next < signed64
  | .sequential s =>
    s.next = next + out.length ∧ out.length ≤ 1 ∧ ∀ x ∈ out, x.number = next

/-- A new policy is in step with a playback that has not begun. -/
theorem inStep_build {s : PolicySettings} {m : Manifest} {p : Policy}
    (hbuild : build s m = .ok p) : p.InStep [] 0 0 [] := by
  obtain ⟨-, rfl⟩ := build_eq_ok_iff.mp hbuild
  have hnone : ∀ x ∈ ([] : List Segment), x.number = 0 := fun x hx => absurd hx List.not_mem_nil
  unfold ofSettings
  cases s.kind with
  | layered =>
      refine ⟨fun number => ?_, Nat.zero_le _, fun x hx => absurd hx List.not_mem_nil⟩
      simp
  | rateBased | bufferBased | alwaysLowest | alwaysBest =>
      exact ⟨rfl, Nat.zero_le 1, hnone⟩

section
variable {p : Policy} {held : List (Nat × Nat)} {first next : Nat} {out : List Segment}

/-- What arrives leaves a policy in step. -/
theorem InStep.delivered (h : p.InStep held first next out) (rates : List Nat) :
    (rates.foldl Policy.delivered p).InStep held first next out := by
  induction rates generalizing p with
  | nil => exact h
  | cons rate rest ih =>
      refine ih ?_
      cases p with
      | layered l => exact h
      | sequential s => exact h

/-- The order of what is requested does not matter. -/
theorem InStep.perm (h : p.InStep held first next out) {out' : List Segment}
    (hperm : out.Perm out') : p.InStep held first next out' := by
  cases p with
  | layered l =>
      obtain ⟨hbase, hword, hout⟩ := h
      exact ⟨hbase, hword, fun s hs => hout s (hperm.mem_iff.mpr hs)⟩
  | sequential s =>
      obtain ⟨hnext, hlength, hout⟩ := h
      rw [hperm.length_eq] at hnext hlength
      exact ⟨hnext, hlength, fun x hx => hout x (hperm.mem_iff.mpr hx)⟩

/-- Of the layers that are requested one is given up, and the policy goes back to it. -/
theorem InStep.rewind {s : Sequential} {lost : Segment} {kept : List Segment}
    (h : (sequential s).InStep held first next (lost :: kept)) :
    (sequential (s.rewind lost.number)).InStep held first next kept := by
  obtain ⟨hnext, hlength, hout⟩ := h
  -- A policy that counts has one layer out at most, which is the one that was lost.
  have hkept : kept = [] := by
    rw [List.length_cons] at hlength
    exact List.eq_nil_of_length_eq_zero (by omega)
  have hnumber : lost.number = next := hout lost List.mem_cons_self
  subst hkept
  refine ⟨?_, Nat.zero_le 1, fun x hx => absurd hx List.not_mem_nil⟩
  show min s.next lost.number = next
  rw [hnumber, hnext]
  exact Nat.min_eq_right (Nat.le_add_right _ _)

/-- A policy may know of less. -/
theorem InStep.layered_sub {l l' : Layered} (h : (layered l).InStep held first next out)
    {kept : List Segment} (hsub : ∀ s ∈ kept, s ∈ out) :
    (layered l').InStep held first next kept := by
  obtain ⟨hbase, hword, hout⟩ := h
  exact ⟨hbase, hword, fun s hs => hout s (hsub s hs)⟩

/-- A policy stays in step when it hears of a rejection. -/
theorem InStep.failed {failed : Segment} {shed kept : List Segment}
    (h : p.InStep held first next out) (hout : out.Perm (kept ++ (failed :: shed))) :
    (p.failed failed).InStep held first next kept := by
  have hfront : (kept ++ (failed :: shed)).Perm (failed :: (kept ++ shed)) := List.perm_middle
  have hlost := h.perm (hout.trans hfront)
  cases p with
  | layered l =>
      refine hlost.layered_sub fun s hs => ?_
      exact List.mem_cons_of_mem _ (List.mem_append_left _ hs)
  | sequential s =>
      obtain ⟨hnext, hlength, hnumbers⟩ := hlost.rewind
      -- At most one layer is requested, so that nothing else is lost or kept.
      have hnone : (kept ++ shed).length = 0 := by
        have hone := hlost.2.1
        rw [List.length_cons] at hone
        omega
      obtain ⟨rfl, rfl⟩ := List.append_eq_nil_iff.mp (List.eq_nil_of_length_eq_zero hnone)
      exact ⟨hnext, hlength, hnumbers⟩

/-- A policy stays in step when it hears of layers that were dropped. -/
theorem InStep.abandoned {kept dropped : List Segment} (h : p.InStep held first next out)
    (hout : out.Perm (kept ++ dropped)) :
    (dropped.foldl Policy.abandoned p).InStep held first next kept := by
  have hkept := h.perm hout
  clear h hout
  induction dropped generalizing p with
  | nil =>
      rw [List.append_nil] at hkept
      exact hkept
  | cons lost rest ih =>
      refine ih ?_
      have hfront : (kept ++ (lost :: rest)).Perm (lost :: (kept ++ rest)) := List.perm_middle
      have hlost := hkept.perm hfront
      cases p with
      | layered l => exact hlost.layered_sub fun s hs => List.mem_cons_of_mem _ hs
      | sequential s => exact hlost.rewind

/-- Playing segments leaves a policy in step: of the base layer it forgets what was played. -/
theorem InStep.advance (h : p.InStep held first next out) {held' : List (Nat × Nat)} {count : Nat}
    (hheld : ∀ level number, (level, number) ∈ held' ↔
      (level, number) ∈ held ∧ ∀ n ∈ List.range' first count, n < number) :
    p.InStep held' (first + count) next out := by
  cases p with
  | layered l =>
      obtain ⟨hbase, hword, hout⟩ := h
      refine ⟨fun number => ?_, hword, hout⟩
      rw [hheld, hbase]
      -- What playback forgets lies before the new first segment, and all of that is forgotten.
      constructor
      · rintro ⟨⟨hge, hlt⟩, hpassed⟩
        refine ⟨?_, hlt⟩
        rcases Nat.lt_or_ge number (first + count) with hless | hbeyond
        · have hmem : number ∈ List.range' first count := by
            rw [List.mem_range'_1]
            exact ⟨hge, hless⟩
          exact absurd (hpassed number hmem) (Nat.lt_irrefl number)
        · exact hbeyond
      · rintro ⟨hge, hlt⟩
        refine ⟨⟨by omega, hlt⟩, fun n hn => ?_⟩
        rw [List.mem_range'_1] at hn
        omega
  | sequential s => exact h

variable {m : Manifest} {h : Holdings} {time : Nat}

/-- What a policy asks for are layers of one segment. -/
theorem segment?_of_next {p' : Policy} {b : PlayoutBuffer} {batch : List Segment}
    (hnext : p.next m b h = .ok (batch, p')) :
    ∃ number, ∀ s ∈ batch, m.segment? s.level number = some s := by
  cases next_cases hnext with
  | layered decided =>
      obtain ⟨number, hbatch⟩ := Layered.next_spec decided
      exact ⟨number, fun s hs => (hbatch s hs).1⟩
  | @counted s segment there =>
      obtain ⟨hlevel, -⟩ := Manifest.segment?_spec there
      refine ⟨s.next, List.forall_mem_singleton.mpr ?_⟩
      rw [hlevel]
      exact there
  | ended => exact ⟨0, fun x hx => absurd hx List.not_mem_nil⟩

/-- A policy in step asks for layers of one segment, and stays in step when they are requested. -/
theorem InStep.requested {p' : Policy} {b : PlayoutBuffer} {batch : List Segment}
    (hstep : p.InStep h.held first next []) (hq : h.Queues first next time)
    (hnext : p.next m b h = .ok (batch, p')) :
    p'.InStep h.held first next batch ∧
      ∃ number, ∀ s ∈ batch, m.segment? s.level number = some s := by
  refine ⟨?_, segment?_of_next hnext⟩
  cases next_cases hnext with
  | layered decided =>
      obtain ⟨hbase, hword, -⟩ := hstep
      obtain ⟨number, hbatch⟩ := Layered.next_spec decided
      refine ⟨hbase, hword, fun s hs hlevel => ?_⟩
      -- A base layer in the batch could be asked for, so it is that of `next`.
      obtain ⟨-, hnumber, -⟩ := Manifest.segment?_spec (hbatch s hs).1
      have hrequestable := (hbatch s hs).2
      rw [hlevel] at hrequestable
      obtain ⟨hsome, -⟩ := Layered.requestable_base hq hbase hword hrequestable
      rw [hnumber]
      exact hsome number rfl
  | @counted s segment there =>
      have hnumber : s.next = next := hstep.1
      obtain ⟨-, hsame, -⟩ := Manifest.segment?_spec there
      exact ⟨congrArg (· + 1) hnumber, Nat.le_refl 1,
        List.forall_mem_singleton.mpr (hsame.trans hnumber)⟩
  | ended => exact hstep

/-- A policy in step is exhausted only when every segment was credited. -/
theorem InStep.isExhausted (hstep : p.InStep h.held first next []) (hq : h.Queues first next time)
    (hexhausted : p.isExhausted m h = .ok true) : m.currentTotal ≤ next := by
  cases p with
  | layered l =>
      obtain ⟨hbase, hword, -⟩ := hstep
      obtain ⟨number?, hrequestable, hnone⟩ := Checked.bind_eq_ok_iff.mp hexhausted
      obtain ⟨-, htotal⟩ := Layered.requestable_base hq hbase hword hrequestable
      exact htotal (Option.isNone_iff_eq_none.mp (Except.ok.inj hnone))
  | sequential s =>
      obtain ⟨hnumber, -, -⟩ := hstep
      have hnumber : s.next = next := hnumber
      have hle : m.currentTotal ≤ s.next := of_decide_eq_true (Except.ok.inj hexhausted)
      omega

/-- The layers that are requested arrive. If they can be played, they are those of the segment
`next`, and the policy is in step with a playback that credits it. -/
theorem InStep.taken {layers : List Segment} {number : Nat}
    (hstep : p.InStep h.held first next layers) (hq : h.Queues first next time)
    (hsome : layers ≠ []) (hnumber : ∀ s ∈ layers, s.number = number)
    (hplayable : !p.isLayered || layers.any (·.level == 0)) :
    number = next ∧
      p.InStep ((layers.map Segment.level).foldl (Holdings.recorded number) h).held
        first (next + 1) [] := by
  have horder := hq.order
  have hnone : ∀ x ∈ ([] : List Segment), x.number = next + 1 :=
    fun x hx => absurd hx List.not_mem_nil
  cases p with
  | layered l =>
      obtain ⟨hbase, hword, hout⟩ := hstep
      obtain ⟨s, hs, hlevel⟩ := List.any_eq_true.mp hplayable
      have hlevel : s.level = 0 := beq_iff_eq.mp hlevel
      obtain ⟨hnext, hlt⟩ := hout s hs hlevel
      obtain rfl : number = next := (hnumber s hs).symm.trans hnext
      refine ⟨rfl, fun n => ?_, hlt, fun x hx => absurd hx List.not_mem_nil⟩
      have hmem : 0 ∈ layers.map Segment.level := hlevel ▸ List.mem_map_of_mem hs
      have hfresh : h.isPlayed number = false := by
        rw [hq.isPlayed]
        simpa using horder
      rw [Holdings.mem_held_foldl_recorded, hbase]
      simp only [hmem, hfresh, and_true]
      omega
  | sequential s =>
      obtain ⟨hcount, hlength, hout⟩ := hstep
      obtain ⟨x, hx⟩ := List.exists_mem_of_ne_nil layers hsome
      -- A policy that counts has asked for a single layer, which has arrived.
      have hone : layers.length = 1 := by
        have hpositive := List.length_pos_of_mem hx
        omega
      refine ⟨(hnumber x hx).symm.trans (hout x hx), ?_, Nat.zero_le 1, hnone⟩
      rw [hcount, hone]
      rfl

/-- The layers that are requested arrive. Without a base layer among them layered content goes on
to miss the same segment. -/
theorem InStep.passedBy {layers : List Segment} (hstep : p.InStep h.held first next layers)
    (number : Nat)
    (hunplayable : (!p.isLayered || layers.any (·.level == 0)) = false) :
    p.InStep ((layers.map Segment.level).foldl (Holdings.recorded number) h).held
      first next [] := by
  cases p with
  | layered l =>
      obtain ⟨hbase, hword, hout⟩ := hstep
      refine ⟨fun n => ?_, hword, fun x hx => absurd hx List.not_mem_nil⟩
      -- No base layer was recorded, so `next` is still missing.
      have hmem : 0 ∉ layers.map Segment.level := by
        intro hzero
        obtain ⟨s, hs, hlevel⟩ := List.mem_map.mp hzero
        have hnot := List.any_eq_false.mp hunplayable s hs
        exact hnot (beq_iff_eq.mpr hlevel)
      rw [Holdings.mem_held_foldl_recorded, hbase]
      simp only [hmem, false_and, and_false, or_false]
  | sequential s => cases hunplayable

end

end Policy

/-! ### What decides for a player -/

namespace Adaptation

/-- A player's policy is built in and in step. Nothing is known of what another one asks for. -/
def InStep (a : Adaptation) (held : List (Nat × Nat)) (first next : Nat) (out : List Segment) :
    Prop :=
  ∃ p, a = .builtIn p ∧ p.InStep held first next out

section
variable {a : Adaptation} {held : List (Nat × Nat)} {first next time : Nat} {out : List Segment}
  {m : Manifest} {h : Holdings}

/-- What arrives leaves a player's policy in step. -/
theorem InStep.delivered (hstep : a.InStep held first next out) (rates : List Nat) :
    (rates.foldl Adaptation.delivered a).InStep held first next out := by
  obtain ⟨p, rfl, hp⟩ := hstep
  exact ⟨_, List.foldl_hom builtIn fun _ _ => rfl, hp.delivered rates⟩

/-- For a player's policy, too, the order of what is requested does not matter. -/
theorem InStep.perm (hstep : a.InStep held first next out) {out' : List Segment}
    (hperm : out.Perm out') : a.InStep held first next out' := by
  obtain ⟨p, rfl, hp⟩ := hstep
  exact ⟨p, rfl, hp.perm hperm⟩

/-- A player's policy stays in step when it hears of a rejection. -/
theorem InStep.failed {failed : Segment} {shed kept : List Segment}
    (hstep : a.InStep held first next out) (hout : out.Perm (kept ++ (failed :: shed))) :
    (a.failed failed).InStep held first next kept := by
  obtain ⟨p, rfl, hp⟩ := hstep
  exact ⟨_, rfl, hp.failed hout⟩

/-- A player's policy stays in step when it hears of layers that were dropped. -/
theorem InStep.abandoned {kept dropped : List Segment} (hstep : a.InStep held first next out)
    (hout : out.Perm (kept ++ dropped)) :
    (dropped.foldl Adaptation.abandoned a).InStep held first next kept := by
  obtain ⟨p, rfl, hp⟩ := hstep
  exact ⟨_, List.foldl_hom builtIn fun _ _ => rfl, hp.abandoned hout⟩

/-- Playing segments leaves a player's policy in step. -/
theorem InStep.advance (hstep : a.InStep held first next out) {held' : List (Nat × Nat)}
    {count : Nat} (hheld : ∀ level number, (level, number) ∈ held' ↔
      (level, number) ∈ held ∧ ∀ n ∈ List.range' first count, n < number) :
    a.InStep held' (first + count) next out := by
  obtain ⟨p, rfl, hp⟩ := hstep
  exact ⟨p, rfl, hp.advance hheld⟩

/-- A player's policy in step asks for layers of one segment, which can be found in the content. -/
theorem InStep.requested {a' : Adaptation} {b : PlayoutBuffer} {batch : List Segment}
    (hstep : a.InStep h.held first next []) (hq : h.Queues first next time)
    (hnext : a.next m b h = .ok (batch, a')) :
    a'.InStep h.held first next batch ∧
      ∃ number, ∀ s ∈ batch, m.segment? s.level number = some s := by
  obtain ⟨p, rfl, hp⟩ := hstep
  obtain ⟨p', rfl, hanswer⟩ := next_builtIn hnext
  obtain ⟨hp', hbatch⟩ := hp.requested hq hanswer
  exact ⟨⟨p', rfl, hp'⟩, hbatch⟩

/-- A player's policy in step is exhausted only when every segment was credited. -/
theorem InStep.isExhausted (hstep : a.InStep h.held first next []) (hq : h.Queues first next time)
    (hexhausted : a.isExhausted m h = .ok true) : m.currentTotal ≤ next := by
  obtain ⟨p, rfl, hp⟩ := hstep
  exact hp.isExhausted hq hexhausted

/-- The layers that are requested arrive and can be played: they are those of the segment `next`. -/
theorem InStep.taken {layers : List Segment} {number : Nat}
    (hstep : a.InStep h.held first next layers) (hq : h.Queues first next time)
    (hsome : layers ≠ []) (hnumber : ∀ s ∈ layers, s.number = number)
    (hplayable : !a.isLayered || layers.any (·.level == 0)) :
    number = next ∧
      a.InStep ((layers.map Segment.level).foldl (Holdings.recorded number) h).held
        first (next + 1) [] := by
  obtain ⟨p, rfl, hp⟩ := hstep
  obtain ⟨hnext, hp'⟩ := hp.taken hq hsome hnumber hplayable
  exact ⟨hnext, p, rfl, hp'⟩

/-- The layers that are requested arrive and cannot be played: nothing is credited. -/
theorem InStep.passedBy {layers : List Segment} (hstep : a.InStep h.held first next layers)
    (number : Nat) (hunplayable : (!a.isLayered || layers.any (·.level == 0)) = false) :
    a.InStep ((layers.map Segment.level).foldl (Holdings.recorded number) h).held
      first next [] := by
  obtain ⟨p, rfl, hp⟩ := hstep
  exact ⟨p, rfl, hp.passedBy number hunplayable⟩

/-- Whatever decides asks for layers of one segment. -/
theorem number_of_next {a' : Adaptation} {b : PlayoutBuffer} {batch : List Segment}
    (hnext : a.next m b h = .ok (batch, a')) : ∃ number, ∀ s ∈ batch, s.number = number := by
  cases a with
  | builtIn p =>
      obtain ⟨p', -, hanswer⟩ := next_builtIn hnext
      obtain ⟨number, hbatch⟩ := Policy.segment?_of_next hanswer
      exact ⟨number, fun s hs => (Manifest.segment?_spec (hbatch s hs)).2.1⟩
  | foreign f =>
      obtain ⟨rfl, -⟩ := Prod.mk.inj (Except.ok.inj hnext)
      exact ⟨(f.decision f.asked).number, (f.decision f.asked).numbered⟩

end

end Adaptation

end LayerCast
