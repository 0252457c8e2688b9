import LayerCast.Policy.Adaptation
import LayerCast.Proofs.Content.Segments

/-!
# `LayerCast.Proofs.Policy.Nature`: what a policy is, whatever it has learnt

`Policy.Answers` lists what a built-in policy can come to when it is asked for layers.

A policy learns from what arrives and what is refused. What it does not learn is whether it is
layered, and which rule it picks levels by. That is its `Nature`, and it is the same after every
decision and everything that the policy is told (`Adaptation.kept_nature`).

The levels that the rule of a built-in policy picks are levels of the content (`level_lt`). So a
policy that walks through the numbers asks for a segment until it is exhausted
(`Sequential.isExhausted_of_gone`).
-/

set_option autoImplicit false

namespace LayerCast

/-! ### Answers -/

/-- What a built-in policy answers with, and what becomes of it. -/
inductive Policy.Answers (m : Manifest) (b : PlayoutBuffer) (h : Holdings) :
    Policy → List Segment → Policy → Prop
  | layered {l : Layered} {batch : List Segment} (decided : l.next m h = .ok batch) :
      Answers m b h (.layered l) batch (.layered l)
  /-- A policy that counts asks for the segment of its number. -/
  | counted {s : Sequential} {segment : Segment}
      (there : m.segment? (s.rule.level m b) s.next = some segment) :
      Answers m b h (.sequential s) [segment] (.sequential { s with next := s.next + 1 })
  /-- There is no segment of its number. -/
  | ended {s : Sequential} (gone : m.segment? (s.rule.level m b) s.next = none) :
      Answers m b h (.sequential s) [] (.sequential s)

/-- What is handed out is the answer of one of the policies, or nothing. -/
theorem Policy.next_cases {p p' : Policy} {m : Manifest} {b : PlayoutBuffer} {h : Holdings}
    {batch : List Segment} (hnext : p.next m b h = .ok (batch, p')) :
    Answers m b h p batch p' := by
  cases p with
  | layered l =>
      obtain ⟨segments, hsegments, hnext⟩ := Checked.bind_eq_ok_iff.mp hnext
      obtain ⟨rfl, rfl⟩ := Prod.mk.inj (Except.ok.inj hnext)
      exact .layered hsegments
  | sequential s =>
      simp only [Policy.next, Sequential.take] at hnext
      split at hnext
      · rename_i segment hsegment
        obtain ⟨rfl, rfl⟩ := Prod.mk.inj (Except.ok.inj hnext)
        exact .counted hsegment
      · rename_i hnone
        obtain ⟨rfl, rfl⟩ := Prod.mk.inj (Except.ok.inj hnext)
        exact .ended hnone

/-- A built-in policy stays built in. -/
theorem Adaptation.next_builtIn {p : Policy} {a' : Adaptation} {m : Manifest} {b : PlayoutBuffer}
    {h : Holdings} {batch : List Segment} (hnext : (builtIn p).next m b h = .ok (batch, a')) :
    ∃ p', a' = .builtIn p' ∧ p.next m b h = .ok (batch, p') := by
  obtain ⟨⟨segments, p'⟩, hsegments, hnext⟩ := Checked.bind_eq_ok_iff.mp hnext
  obtain ⟨rfl, rfl⟩ := Prod.mk.inj (Except.ok.inj hnext)
  exact ⟨p', rfl, hsegments⟩

/-! ### Natures -/

/-- A rule without the rates that were measured for it. -/
def LevelRule.unmeasured : LevelRule → LevelRule
  | .measured _ window => .measured [] window
  | rule => rule

/-- What is measured does not change the rule. -/
theorem LevelRule.unmeasured_observe (rule : LevelRule) (rate : Nat) :
    (rule.observe rate).unmeasured = rule.unmeasured := by
  cases rule <;> rfl

/-- What is always the same about a policy. -/
structure Nature where
  builtIn : Bool
  layered : Bool
  /-- How levels are picked, by a built-in policy that is not layered. -/
  rule? : Option LevelRule

namespace Adaptation

/-- The nature of what decides for a player. -/
def nature : Adaptation → Nature
  | .builtIn (.layered _) => ⟨true, true, none⟩
  | .builtIn (.sequential s) => ⟨true, false, some s.rule.unmeasured⟩
  | .foreign f => ⟨false, f.isLayered, none⟩

/-- Only a built-in policy has the nature of one. -/
theorem builtIn_nature {a : Adaptation} (h : a.nature.builtIn = true) : ∃ p, a = .builtIn p := by
  cases a with
  | builtIn p => exact ⟨p, rfl⟩
  | foreign f => cases h

/-- Whether a policy is layered is part of its nature. -/
theorem layered_nature (a : Adaptation) : a.nature.layered = a.isLayered := by
  cases a with
  | builtIn p => cases p <;> rfl
  | foreign f => rfl

/-- Policies of one nature are layered or not together. -/
theorem isLayered_of_nature {a b : Adaptation} (h : a.nature = b.nature) :
    a.isLayered = b.isLayered := by
  rw [← layered_nature, h, layered_nature]

/-- A property that a policy keeps when it is asked and when it is told something. -/
structure Kept (keeps : Adaptation → Prop) : Prop where
  next : ∀ {a a' m b h batch}, a.next m b h = .ok (batch, a') → keeps a → keeps a'
  delivered : ∀ {a} rate, keeps a → keeps (a.delivered rate)
  failed : ∀ {a} segment, keeps a → keeps (a.failed segment)
  abandoned : ∀ {a} segment, keeps a → keeps (a.abandoned segment)

section
variable {keeps : Adaptation → Prop} {a a' : Adaptation}

/-- What arrives is told one after another. -/
theorem Kept.foldl_delivered (hkept : Kept keeps) (rates : List Nat) (h : keeps a) :
    keeps (rates.foldl Adaptation.delivered a) :=
  List.foldlRecOn _ _ h fun _ ha rate _ => hkept.delivered rate ha

/-- Layers that are given up are told one after another. -/
theorem Kept.foldl_abandoned (hkept : Kept keeps) (segments : List Segment) (h : keeps a) :
    keeps (segments.foldl Adaptation.abandoned a) :=
  List.foldlRecOn _ _ h fun _ ha segment _ => hkept.abandoned segment ha

/-- **A policy keeps its nature.** -/
theorem kept_nature (n : Nature) : Kept fun a => a.nature = n where
  next := by
    intro a a' m b h batch hnext ha
    cases a with
    | builtIn p =>
        obtain ⟨p', rfl, hanswer⟩ := next_builtIn hnext
        cases Policy.next_cases hanswer <;> exact ha
    | foreign f =>
        obtain ⟨-, rfl⟩ := Prod.mk.inj (Except.ok.inj hnext)
        exact ha
  delivered := by
    intro a rate ha
    rcases a with (l | s) | f
    · exact ha
    · -- A rate that is measured is forgotten with what the rule has measured.
      show Nature.mk true false (some (s.rule.observe rate).unmeasured) = n
      rw [LevelRule.unmeasured_observe]
      exact ha
    · exact ha
  failed := by
    intro a segment ha
    rcases a with (l | s) | f <;> exact ha
  abandoned := by
    intro a segment ha
    rcases a with (l | s) | f <;> exact ha

/-- What is asked for does not change the nature of a policy. -/
theorem nature_next {m : Manifest} {b : PlayoutBuffer} {h : Holdings} {batch : List Segment}
    (hnext : a.next m b h = .ok (batch, a')) : a'.nature = a.nature :=
  (kept_nature a.nature).next hnext rfl

/-- What arrives does not change the nature of a policy. -/
theorem nature_delivered (rates : List Nat) (a : Adaptation) :
    (rates.foldl Adaptation.delivered a).nature = a.nature :=
  (kept_nature a.nature).foldl_delivered rates rfl

/-- A rejection does not change the nature of a policy. -/
theorem nature_failed (a : Adaptation) (segment : Segment) :
    (a.failed segment).nature = a.nature :=
  (kept_nature a.nature).failed segment rfl

/-- Layers that are given up do not change the nature of a policy. -/
theorem nature_abandoned (segments : List Segment) (a : Adaptation) :
    (segments.foldl Adaptation.abandoned a).nature = a.nature :=
  (kept_nature a.nature).foldl_abandoned segments rfl

end

end Adaptation

/-! ### The levels of a rule -/

namespace LevelRule

/-- Whether a rule that always picks one level picks one of the content. -/
def InRange (m : Manifest) : LevelRule → Prop
  | .best level => level < m.levels
  | _ => True

/-- The rung that a rate can pay for is one of the ladder. -/
theorem levelFor_lt {representations : List Representation} (hsome : 0 < representations.length)
    (rate : Nat) : levelFor representations rate < representations.length := by
  unfold levelFor
  cases hlast : (((representations.zipIdx.filter (·.1.bandwidth ≤ rate)).map (·.2)).getLast?) with
  | none => exact hsome
  | some level =>
      obtain ⟨⟨r, index⟩, hmem, rfl⟩ := List.mem_map.mp (List.mem_of_getLast? hlast)
      obtain ⟨hmem, -⟩ := List.mem_filter.mp hmem
      obtain ⟨hlt, -⟩ := List.getElem?_eq_some_iff.mp (List.mem_zipIdx_iff_getElem?.mp hmem)
      exact hlt

/-- No filling leads above the top of the ladder. -/
theorem levelAt_le (reservoir cushion top filled : Nat) :
    levelAt reservoir cushion top filled ≤ top := by
  unfold levelAt
  split
  · exact Nat.zero_le top
  · split
    · exact Nat.le_refl top
    · exact Nat.min_le_right ..

/-- A rule picks a level of the content. -/
theorem level_lt {rule : LevelRule} {m : Manifest} (hsome : 0 < m.levels)
    (h : rule.unmeasured.InRange m) (b : PlayoutBuffer) : rule.level m b < m.levels := by
  cases rule with
  | measured rates window =>
      simp only [level]
      split
      · exact hsome
      · exact levelFor_lt hsome _
  | filled reservoir cushion =>
      have hle := levelAt_le reservoir cushion (m.levels - 1) b.filled
      show levelAt reservoir cushion (m.levels - 1) b.filled < m.levels
      omega
  | lowest => exact hsome
  | best level => exact h

end LevelRule

/-- A policy that counts finds no segment of its number only when it is exhausted. -/
theorem Sequential.isExhausted_of_gone {s : Sequential} {m : Manifest} {b : PlayoutBuffer}
    (hlevel : s.rule.level m b < m.levels)
    (hgone : m.segment? (s.rule.level m b) s.next = none) : s.isExhausted m = true := by
  refine decide_eq_true (Nat.le_of_not_lt fun hlt => ?_)
  obtain ⟨segment, hsegment⟩ := Manifest.exists_segment? hlevel hlt
  rw [hgone] at hsegment
  cases hsegment

/-! ### The policies of settings -/

/-- A policy that is not layered starts with the number 0 and a rule that picks levels of the
content. -/
theorem Policy.exists_ofSettings {m : Manifest} (hlevels : 0 < m.levels) {settings : PolicySettings}
    (hkind : settings.kind ≠ .layered) :
    ∃ rule : LevelRule, ofSettings settings m = .sequential { rule } ∧
      rule.unmeasured.InRange m := by
  unfold ofSettings
  cases hcase : settings.kind with
  | layered => exact absurd hcase hkind
  | rateBased | bufferBased | alwaysLowest => exact ⟨_, rfl, trivial⟩
  | alwaysBest =>
      refine ⟨_, rfl, ?_⟩
      show m.levels - 1 < m.levels
      omega

/-- A policy is made of settings exactly if the content has something to play. -/
theorem Policy.build_eq_ok_iff {s : PolicySettings} {m : Manifest} {p : Policy} :
    build s m = .ok p ↔ (0 < m.levels ∧ 0 < m.currentTotal) ∧ p = ofSettings s m := by
  have hempty : (m.representations m.currentPeriod).isEmpty = true ↔ ¬0 < m.levels := by
    rw [List.isEmpty_iff_length_eq_zero, ← Manifest.levels]
    omega
  unfold build
  by_cases hlevels : 0 < m.levels
  · rw [if_neg (mt hempty.mp (not_not_intro hlevels))]
    by_cases htotal : 0 < m.currentTotal
    · rw [if_neg (Nat.ne_of_gt htotal)]
      simp [hlevels, htotal, eq_comm]
    · rw [if_pos (Nat.eq_zero_of_not_pos htotal)]
      simp [htotal]
  · rw [if_pos (hempty.mpr hlevels)]
    simp [hlevels]

/-- Settings name a policy whose rule picks levels of the content. -/
theorem Policy.nature_build {s : PolicySettings} {m : Manifest} {p : Policy}
    (h : Policy.build s m = .ok p) :
    ((Adaptation.builtIn p).nature.layered = true ↔ s.kind = .layered) ∧
      (∀ rule ∈ (Adaptation.builtIn p).nature.rule?, rule.InRange m) ∧
      (s.kind = .alwaysLowest → (Adaptation.builtIn p).nature.rule? = some .lowest) := by
  obtain ⟨⟨hlevels, -⟩, rfl⟩ := build_eq_ok_iff.mp h
  by_cases hkind : s.kind = .layered
  · simp [ofSettings, hkind, Adaptation.nature]
  · obtain ⟨rule, hstart, hrange⟩ := exists_ofSettings hlevels hkind
    rw [hstart]
    refine ⟨by simp [Adaptation.nature, hkind], ?_, ?_⟩
    · intro named hnamed
      obtain rfl := Option.some.inj hnamed
      exact hrange
    · intro hlowest
      rw [ofSettings, hlowest] at hstart
      cases hstart
      rfl

end LayerCast
