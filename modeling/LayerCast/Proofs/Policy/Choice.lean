import LayerCast.Policy.Layered
import LayerCast.Proofs.Content.Segments

/-!
# `LayerCast.Proofs.Policy.Choice`: what the layered policy can decide

A level `Lacks` a segment against a top level if it wants more segments than it holds, and can be
asked for one. It is `Sated` if it holds as many as it wants, or if the content has no more for it.
`Layered.Decided` lists what a decision can be, with what is known of the levels that were passed
over, and every decision is one of these (`decided_of_decide`). What is said of a decision is a case
analysis of `Decided` then.

What is decided on is there (`exists_of_decide`), and all layers of a batch are of one segment and
could be asked for on their levels (`next_spec`).
-/

set_option autoImplicit false

namespace LayerCast

/-- The layer that a decision asks for first. -/
def LayerChoice.target : LayerChoice → Target
  | .fill target _ => target
  | .raise target => target

namespace Layered

variable {l : Layered} {m : Manifest} {h : Holdings} {level number top : Nat}

/-! ### Levels -/

/-- What can be asked for lies within the content. -/
theorem lt_of_requestable (h' : l.requestable m h level = .ok (some number)) :
    number < m.currentTotal := by
  obtain ⟨needed, -, h'⟩ := Checked.bind_eq_ok_iff.mp h'
  have h' := Except.ok.inj h'
  split at h'
  · obtain rfl := Option.some.inj h'
    omega
  · cases h'

/-- A level that holds as many segments as it wants against a top level, or that can be asked for
none. -/
def Sated (l : Layered) (m : Manifest) (h : Holdings) (top level : Nat) : Prop :=
  l.isStarved h top level = .ok false ∨ l.requestable m h level = .ok none

/-- A level that wants more segments against a top level, and can be asked for one. -/
def Lacks (l : Layered) (m : Manifest) (h : Holdings) (top level number : Nat) : Prop :=
  l.isStarved h top level = .ok true ∧ l.requestable m h level = .ok (some number)

/-- A level that lacks nothing is sated. -/
theorem sated_of_lacking (h' : l.lacking m h top level = .ok none) : l.Sated m h top level := by
  obtain ⟨starved, hstarved, h'⟩ := Checked.bind_eq_ok_iff.mp h'
  cases starved with
  | false => exact .inl hstarved
  | true => exact .inr h'

/-- A number is found for a layer exactly if the layer wants more and can be asked for that
number. -/
theorem lacking_eq_some_iff :
    l.lacking m h top level = .ok (some number) ↔ l.Lacks m h top level number := by
  constructor
  · intro h'
    obtain ⟨starved, hstarved, h'⟩ := Checked.bind_eq_ok_iff.mp h'
    cases starved with
    | false => cases h'
    | true => exact ⟨hstarved, h'⟩
  · rintro ⟨hstarved, hnumber⟩
    exact Checked.bind_eq_ok_iff.mpr ⟨true, hstarved, hnumber⟩

/-- A level that lacks a segment is not sated. -/
theorem Lacks.not_sated (h' : l.Lacks m h top level number) : ¬l.Sated m h top level := by
  rintro (hdeep | hgone)
  · exact nomatch Except.ok.inj (h'.1.symm.trans hdeep)
  · exact nomatch Except.ok.inj (h'.2.symm.trans hgone)

/-! ### Decisions -/

/-- The first level in use that lacks a segment against a top level. -/
structure IsFirst (l : Layered) (m : Manifest) (h : Holdings) (top : Nat) (target : Target) :
    Prop where
  inUse : target.level ≤ highestInUse m h
  lacks : l.Lacks m h top target.level target.number
  below : ∀ level < target.level, l.Sated m h top level

/-- What a decision can be. -/
inductive Decided (l : Layered) (m : Manifest) (h : Holdings) : Option LayerChoice → Prop
  /-- A level in use lacks a segment against the highest level in use. -/
  | steady (target : Target) (first : l.IsFirst m h (highestInUse m h) target) :
      Decided l m h (some (.fill target (highestInUse m h)))
  /-- A level in use lacks a segment against a top two levels higher. -/
  | growing (target : Target)
      (filled : ∀ level ≤ highestInUse m h, l.Sated m h (highestInUse m h) level)
      (first : l.IsFirst m h (highestInUse m h + 2) target) :
      Decided l m h (some (.fill target (highestInUse m h + 2)))
  /-- The next level is started. -/
  | raised (number : Nat)
      (filled : ∀ level ≤ highestInUse m h, l.Sated m h (highestInUse m h) level)
      (grown : ∀ level ≤ highestInUse m h, l.Sated m h (highestInUse m h + 2) level)
      (there : highestInUse m h + 1 < m.levels)
      (next : l.requestable m h (highestInUse m h + 1) = .ok (some number)) :
      Decided l m h (some (.raise ⟨highestInUse m h + 1, number⟩))
  /-- There is nothing to be asked for. -/
  | nothing (filled : ∀ level ≤ highestInUse m h, l.Sated m h (highestInUse m h) level)
      (grown : ∀ level ≤ highestInUse m h, l.Sated m h (highestInUse m h + 2) level)
      (last : highestInUse m h + 1 < m.levels →
        l.requestable m h (highestInUse m h + 1) = .ok none) :
      Decided l m h none

/-- Of several levels in order, the first one that lacks a segment. The levels before it are
sated. -/
theorem spec_of_firstLacking {levels : List Nat} (hsorted : levels.Pairwise (· < ·))
    {target : Target} (h' : l.firstLacking m h top levels = .ok (some target)) :
    target.level ∈ levels ∧ l.Lacks m h top target.level target.number ∧
      ∀ level ∈ levels, level < target.level → l.Sated m h top level := by
  -- Along the levels, which are looked at from below.
  induction levels with
  | nil => cases h'
  | cons level rest ih =>
      obtain ⟨hfirst, hrest⟩ := List.pairwise_cons.mp hsorted
      obtain ⟨number?, hlacking, h'⟩ := Checked.bind_eq_ok_iff.mp h'
      cases number? with
      | none =>
          obtain ⟨hmem, hlacks, hbelow⟩ := ih hrest h'
          exact ⟨List.mem_cons_of_mem level hmem, hlacks,
            List.forall_mem_cons.mpr ⟨fun _ => sated_of_lacking hlacking, hbelow⟩⟩
      | some number =>
          obtain rfl := Option.some.inj (Except.ok.inj h')
          refine ⟨List.mem_cons_self, lacking_eq_some_iff.mp hlacking,
            List.forall_mem_cons.mpr ⟨fun hlt => ?_, fun other hother hlt => ?_⟩⟩
          · exact absurd hlt (Nat.lt_irrefl level)
          · exact absurd (hfirst other hother) (Nat.lt_asymm hlt)

/-- If no level lacks a segment, then all of them are sated. -/
theorem sated_of_firstLacking {levels : List Nat}
    (h' : l.firstLacking m h top levels = .ok none) :
    ∀ level ∈ levels, l.Sated m h top level := by
  induction levels with
  | nil => exact List.forall_mem_nil _
  | cons level rest ih =>
      obtain ⟨number?, hlacking, h'⟩ := Checked.bind_eq_ok_iff.mp h'
      cases number? with
      | none => exact List.forall_mem_cons.mpr ⟨sated_of_lacking hlacking, ih h'⟩
      | some number => cases h'

/-- **A phase** finds the first level in use that lacks a segment, or all of them are sated. -/
theorem phase_spec {target? : Option Target}
    (h' : l.firstLacking m h top (List.range (highestInUse m h + 1)) = .ok target?) :
    (∀ target, target? = some target → l.IsFirst m h top target) ∧
      (target? = none → ∀ level ≤ highestInUse m h, l.Sated m h top level) := by
  have hmem : ∀ {level : Nat}, level ∈ List.range (highestInUse m h + 1) ↔
      level ≤ highestInUse m h := List.mem_range.trans Nat.lt_succ_iff
  constructor
  · rintro target rfl
    obtain ⟨hinUse, hlacks, hbelow⟩ := spec_of_firstLacking List.pairwise_lt_range h'
    have hinUse := hmem.mp hinUse
    exact ⟨hinUse, hlacks, fun level hlt =>
      hbelow level (hmem.mpr (Nat.le_of_lt (Nat.lt_of_lt_of_le hlt hinUse))) hlt⟩
  · rintro rfl level hle
    exact sated_of_firstLacking h' level (hmem.mpr hle)

/-- **A decision** is one of the four. -/
theorem decided_of_decide {choice? : Option LayerChoice} (h' : l.decide m h = .ok choice?) :
    l.Decided m h choice? := by
  obtain ⟨target?, htarget, h'⟩ := Checked.bind_eq_ok_iff.mp h'
  -- The layers are filled as they are, then as for two more levels, and then a level is added.
  cases target? with
  | some target =>
      obtain rfl := Except.ok.inj h'
      exact .steady target ((phase_spec htarget).1 target rfl)
  | none =>
      have hfilled := (phase_spec htarget).2 rfl
      obtain ⟨target?, htarget, h'⟩ := Checked.bind_eq_ok_iff.mp h'
      cases target? with
      | some target =>
          obtain rfl := Except.ok.inj h'
          exact .growing target hfilled ((phase_spec htarget).1 target rfl)
      | none =>
          have hgrown := (phase_spec htarget).2 rfl
          simp only at h'
          split at h'
          · rename_i hthere
            obtain ⟨number?, hnumber, h'⟩ := Checked.bind_eq_ok_iff.mp h'
            obtain rfl := Except.ok.inj h'
            cases number? with
            | none => exact .nothing hfilled hgrown fun _ => hnumber
            | some number => exact .raised number hfilled hgrown hthere hnumber
          · rename_i hlast
            obtain rfl := Except.ok.inj h'
            exact .nothing hfilled hgrown fun hthere => absurd hthere hlast

/-- A level that is filled is the first one of its phase. -/
theorem Decided.isFirst {target : Target} (h' : l.Decided m h (some (.fill target top))) :
    l.IsFirst m h top target := by
  cases h' with
  | steady _ first => exact first
  | growing _ filled first => exact first

/-- What a decision asks for first is there. -/
theorem exists_of_decide (hsome : 0 < m.levels) {choice : LayerChoice}
    (h' : l.decide m h = .ok (some choice)) :
    ∃ s, m.segment? choice.target.level choice.target.number = some s := by
  have hle : highestInUse m h ≤ m.levels - 1 := Nat.min_le_right ..
  cases decided_of_decide h' with
  | steady target first | growing target filled first =>
      have hinUse := first.inUse
      exact Manifest.exists_segment? (show target.level < m.levels by omega)
        (lt_of_requestable first.lacks.2)
  | raised number filled grown there next =>
      exact Manifest.exists_segment? there (lt_of_requestable next)

/-! ### Batches -/

/-- What rides along are the segments of one number on those of several levels that lack it. -/
theorem mem_riders_iff {levels : List Nat} {batch : List Segment}
    (h' : l.riders m h top number levels = .ok batch) (s : Segment) :
    s ∈ batch ↔ s.level ∈ levels ∧ l.Lacks m h top s.level number ∧
      m.segment? s.level number = some s := by
  induction levels generalizing batch with
  | nil =>
      obtain rfl := Except.ok.inj h'
      simp
  | cons level rest ih =>
      obtain ⟨lacks, hlacks, h'⟩ := Checked.bind_eq_ok_iff.mp h'
      obtain ⟨others, hothers, h'⟩ := Checked.bind_eq_ok_iff.mp h'
      obtain rfl := Except.ok.inj h'
      -- The segment of the first level is there if that level lacks it.
      have hfirst : s ∈ (if lacks = some number then (m.segment? level number).toList else []) ↔
          s.level = level ∧ l.Lacks m h top s.level number ∧
            m.segment? s.level number = some s := by
        constructor
        · intro hs
          split at hs
          · rename_i hsame
            have hsegment := Option.mem_toList.mp hs
            obtain ⟨rfl, -⟩ := Manifest.segment?_spec hsegment
            exact ⟨rfl, lacking_eq_some_iff.mp (hsame ▸ hlacks), hsegment⟩
          · cases hs
        · rintro ⟨rfl, hlevel, hsegment⟩
          have hsame := Except.ok.inj (hlacks.symm.trans (lacking_eq_some_iff.mpr hlevel))
          rw [if_pos hsame, hsegment]
          exact List.mem_singleton.mpr rfl
      rw [List.mem_append, ih hothers, hfirst, List.mem_cons, or_and_right]

/-- What rides along is in the order of the levels. -/
theorem riders_sublist {levels : List Nat} {batch : List Segment}
    (h' : l.riders m h top number levels = .ok batch) :
    (batch.map Segment.level).Sublist levels := by
  induction levels generalizing batch with
  | nil =>
      obtain rfl := Except.ok.inj h'
      exact List.Sublist.refl _
  | cons level rest ih =>
      obtain ⟨lacks, -, h'⟩ := Checked.bind_eq_ok_iff.mp h'
      obtain ⟨others, hothers, h'⟩ := Checked.bind_eq_ok_iff.mp h'
      obtain rfl := Except.ok.inj h'
      rw [List.map_append]
      split
      · -- A level may lack its segment, or have none at all in the content.
        cases hsegment : m.segment? level number with
        | none => exact (ih hothers).cons level
        | some s =>
            obtain ⟨rfl, -⟩ := Manifest.segment?_spec hsegment
            exact (ih hothers).cons_cons s.level
      · exact (ih hothers).cons level

/-- **All layers of a batch** are of one segment, and could be asked for on their levels. -/
theorem next_spec {batch : List Segment} (h' : l.next m h = .ok batch) :
    ∃ number, ∀ s ∈ batch, m.segment? s.level number = some s ∧
      l.requestable m h s.level = .ok (some number) := by
  -- A segment that is found has the level that it was looked for.
  have hfound : ∀ {level number : Nat} {s : Segment},
      l.requestable m h level = .ok (some number) → m.segment? level number = some s →
      m.segment? s.level number = some s ∧ l.requestable m h s.level = .ok (some number) := by
    intro level number s hrequestable hsegment
    obtain ⟨hlevel, -⟩ := Manifest.segment?_spec hsegment
    rw [hlevel]
    exact ⟨hsegment, hrequestable⟩
  obtain ⟨choice?, hdecide, h'⟩ := Checked.bind_eq_ok_iff.mp h'
  have hdecided := decided_of_decide hdecide
  cases hdecided with
  | nothing =>
      obtain rfl := Except.ok.inj h'
      exact ⟨0, List.forall_mem_nil _⟩
  | raised number filled grown there next =>
      obtain rfl := Except.ok.inj h'
      exact ⟨number, fun s hs => hfound next (Option.mem_toList.mp hs)⟩
  | steady target first | growing target filled first =>
      obtain ⟨others, hothers, h'⟩ := Checked.bind_eq_ok_iff.mp h'
      obtain rfl := Except.ok.inj h'
      refine ⟨target.number, fun s hs => ?_⟩
      rcases List.mem_append.mp hs with hs | hs
      · exact hfound first.lacks.2 (Option.mem_toList.mp hs)
      · obtain ⟨-, hlacks, hsegment⟩ := (mem_riders_iff hothers s).mp hs
        exact ⟨hsegment, hlacks.2⟩

end Layered

end LayerCast
