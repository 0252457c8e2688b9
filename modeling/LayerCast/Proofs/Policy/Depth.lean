import Mathlib.Data.List.Nodup
import LayerCast.Proofs.Policy.InStep

/-!
# `LayerCast.Proofs.Policy.Depth`: how deep the base layer is

The layered policy asks for nothing only in two cases. The content has no more base layers, or as
many of them are held as the policy wants against a top two levels above the highest one in use
(`Layered.deep_or_exhausted`).

`HoldsBase.count` has the number of base layers that a playback holds which has played the segments
before `first` and credited those before `next`.
-/

set_option autoImplicit false

namespace LayerCast

/-- As many base layers are held as segments were credited and not played. -/
theorem Holdings.HoldsBase.count {h : Holdings} {first next : Nat}
    (hbase : HoldsBase h.held first next) (honce : h.held.Nodup) : h.count 0 = next - first := by
  have hnumbers : (h.numbersAt 0).Nodup := by
    refine List.Nodup.map_on (fun x hx y hy hxy => ?_) (honce.filter _)
    -- All of these layers are on the same level, so that they differ in their numbers.
    have hx := (List.mem_filter.mp hx).2
    have hy := (List.mem_filter.mp hy).2
    exact Prod.ext ((beq_iff_eq.mp hx).trans (beq_iff_eq.mp hy).symm) hxy
  have hperm : (h.numbersAt 0).Perm (List.range' first (next - first)) := by
    rw [List.perm_ext_iff_of_nodup hnumbers List.nodup_range']
    intro number
    rw [mem_numbersAt, hbase, List.mem_range'_1]
    omega
  rw [Holdings.count, hperm.length_eq, List.length_range']

namespace Layered

variable {l : Layered} {m : Manifest} {h : Holdings}

/-- Where nothing is asked for, nothing was to be asked for. -/
theorem decide_of_next_nil (hsome : 0 < m.levels) (h' : l.next m h = .ok []) :
    l.decide m h = .ok none := by
  obtain ⟨choice?, hchoice, h'⟩ := Checked.bind_eq_ok_iff.mp h'
  cases choice? with
  | none => exact hchoice
  | some choice =>
      -- Any choice has its segment in the content, and would have been handed out.
      obtain ⟨s, hs⟩ := exists_of_decide hsome hchoice
      cases choice with
      | raise target =>
          have hnone : (m.segment? target.level target.number).toList = [] := Except.ok.inj h'
          rw [show m.segment? target.level target.number = some s from hs] at hnone
          cases hnone
      | fill target top =>
          obtain ⟨others, -, h'⟩ := Checked.bind_eq_ok_iff.mp h'
          have hnone : (m.segment? target.level target.number).toList ++ others = [] :=
            Except.ok.inj h'
          rw [show m.segment? target.level target.number = some s from hs] at hnone
          cases hnone

/-- **A layered policy that asks for nothing** holds as many base layers as it wants, or it is
exhausted. -/
theorem deep_or_exhausted (hsome : 0 < m.levels) (h' : l.next m h = .ok []) :
    (∃ wanted, l.desired 0 (highestInUse m h + 2) = .ok wanted ∧ wanted ≤ h.count 0) ∨
      l.isExhausted m h = .ok true := by
  cases decided_of_decide (decide_of_next_nil hsome h') with
  | nothing filled grown last =>
      -- The growing phase has found nothing either, not even on the base layer.
      rcases grown 0 (Nat.zero_le _) with hdeep | hgone
      · obtain ⟨wanted, hwanted, hdeep⟩ := Checked.bind_eq_ok_iff.mp hdeep
        exact .inl ⟨wanted, hwanted, Nat.le_of_not_lt (of_decide_eq_false (Except.ok.inj hdeep))⟩
      · refine .inr ?_
        rw [isExhausted, hgone]
        rfl

end Layered

/-- A built-in policy that asks for nothing, though it is not exhausted, is layered and holds as
many base layers as it wants. -/
theorem Adaptation.deep_of_next_nil {a a' : Adaptation} {m : Manifest} {b : PlayoutBuffer}
    {h : Holdings} (hsome : 0 < m.levels) (hbuiltIn : a.nature.builtIn = true)
    (hrange : ∀ rule ∈ a.nature.rule?, rule.InRange m) (hnext : a.next m b h = .ok ([], a'))
    (hmore : a'.isExhausted m h = .ok false) :
    ∃ l wanted, a' = .builtIn (.layered l) ∧
      l.desired 0 (Layered.highestInUse m h + 2) = .ok wanted ∧ wanted ≤ h.count 0 := by
  obtain ⟨p, rfl⟩ := builtIn_nature hbuiltIn
  obtain ⟨p', rfl, hanswer⟩ := next_builtIn hnext
  cases Policy.next_cases hanswer with
  | @layered l _ decided =>
      rcases Layered.deep_or_exhausted hsome decided with ⟨wanted, hwanted, hdeep⟩ | hexhausted
      · exact ⟨l, wanted, rfl, hwanted, hdeep⟩
      · have hmore : l.isExhausted m h = .ok false := hmore
        rw [hexhausted] at hmore
        cases hmore
  | @ended s gone =>
      -- A policy that counts asks for nothing only at the end.
      have hexhausted := Sequential.isExhausted_of_gone
        (LevelRule.level_lt hsome (hrange s.rule.unmeasured rfl) b) gone
      have hmore : s.isExhausted m = false := Except.ok.inj hmore
      rw [hexhausted] at hmore
      cases hmore

end LayerCast
