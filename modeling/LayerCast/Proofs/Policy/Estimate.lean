import Mathlib.Algebra.Order.BigOperators.Group.List
import Mathlib.Algebra.Order.Ring.Nat
import Mathlib.Data.List.DropRight
import LayerCast.Proofs.Policy.Walk

/-!
# `LayerCast.Proofs.Policy.Estimate`: levels by measured rates

The rate-based policy keeps the rates of the last deliveries, as many as its settings say but at
least one. `LevelRule.observe_recent` says that the kept rates are the end of all rates there were,
and `Measures` that this is so after every history. The estimate is their mean, and neither their
sum nor the mean leaves its word.

The ladder of a normalized manifest is in the order of the bandwidths. Then the topmost rung that an
estimate can pay for is also one of the highest bandwidth among these. `Suits` says that a segment
is of this rung, and `follows_estimate` that every segment handed out is.
-/

set_option autoImplicit false

namespace LayerCast

/-! ### Rates and their mean -/

/-- A throughput is a word. -/
theorem throughput_lt (size elapsed : Nat) : throughput size elapsed < word64 := by
  simp only [throughput]
  split
  · decide
  · exact UInt64.toNat_lt _

namespace LevelRule

/-- The kept rates are the last ones of all that were measured. -/
theorem observe_recent (rates : List Nat) (rate : Nat) {window : Nat} (hwindow : 0 < window) :
    (measured (rates.rtake window) window).observe rate =
      .measured ((rates ++ [rate]).rtake window) window := by
  obtain ⟨n, rfl⟩ := Nat.exists_eq_add_one.mpr hwindow
  have hlength : (rates.rtake (n + 1)).length = rates.length - (rates.length - (n + 1)) := by
    simp [List.rtake]
  have hshift : (if (rates.rtake (n + 1)).length = n + 1 then (rates.rtake (n + 1)).drop 1
      else rates.rtake (n + 1)) = rates.rtake n := by
    split
    · -- The window was full, and its oldest rate gives way.
      rw [List.rtake, List.rtake, List.drop_drop]
      congr 1
      omega
    · rw [List.rtake, List.rtake]
      congr 1
      omega
  rw [List.rtake_concat_succ, ← hshift]
  rfl

/-- The estimate is the mean of the kept rates, rounded down. -/
theorem estimate?_eq (rates : List Nat) :
    estimate? rates = if rates = [] then none else some (rates.sum / rates.length) := by
  simp [estimate?, List.sum_eq_foldl]

/-- Words sum up to at most as many times the largest word. -/
theorem sum_le {rates : List Nat} (hrates : ∀ rate ∈ rates, rate < word64) :
    rates.sum ≤ rates.length * (word64 - 1) :=
  List.sum_le_card_nsmul rates (word64 - 1)
    fun rate hrate => Nat.le_sub_one_of_lt (hrates rate hrate)

/-- The mean of words is a word. -/
theorem estimate?_lt {rates : List Nat} (hrates : ∀ rate ∈ rates, rate < word64) {rate : Nat}
    (h : estimate? rates = some rate) : rate < word64 := by
  rw [estimate?_eq] at h
  split at h
  · cases h
  · rename_i hsome
    obtain rfl := Option.some.inj h
    have hlength : 0 < rates.length := List.length_pos_iff.mpr hsome
    have hmean : rates.sum / rates.length ≤ word64 - 1 := Nat.div_le_of_le_mul (sum_le hrates)
    exact Nat.lt_of_le_of_lt hmean (by decide)

/-- The sum of fewer words than a word can count is one of twice the length. -/
theorem sum_lt {rates : List Nat} (hrates : ∀ rate ∈ rates, rate < word64)
    (hlength : rates.length < word64) : rates.sum < word64 * word64 :=
  calc
    rates.sum ≤ rates.length * (word64 - 1) := sum_le hrates
    _ ≤ word64 * (word64 - 1) := Nat.mul_le_mul_right _ (Nat.le_of_lt hlength)
    _ < word64 * word64 := by decide

/-! ### Rungs -/

/-- The level for a rate is the topmost one that the rate can pay for. If there is none, it is the
lowest one. -/
theorem levelFor_spec (ladder : List Representation) (rate : Nat) :
    (∃ r, ladder[levelFor ladder rate]? = some r ∧ r.bandwidth ≤ rate ∧
        ∀ level r', ladder[level]? = some r' → r'.bandwidth ≤ rate →
          level ≤ levelFor ladder rate) ∨
      (levelFor ladder rate = 0 ∧ ∀ r ∈ ladder, rate < r.bandwidth) := by
  -- The rungs that the rate can pay for, in their order. The level is the last of them.
  let paid := (ladder.zipIdx.filter (·.1.bandwidth ≤ rate)).map (·.2)
  have hmem : ∀ level, level ∈ paid ↔ ∃ r, ladder[level]? = some r ∧ r.bandwidth ≤ rate := by
    intro level
    simp [paid, List.mem_zipIdx_iff_getElem?, and_comm]
  have hsorted : paid.Pairwise (· < ·) := by
    have hsub : paid.Sublist (List.range' 0 ladder.length) := by
      rw [← List.zipIdx_map_snd 0 ladder]
      exact List.filter_sublist.map _
    exact List.Pairwise.sublist hsub List.pairwise_lt_range'
  have hlevel : levelFor ladder rate = paid.getLast?.getD 0 := rfl
  cases hlast : paid.getLast? with
  | none =>
      rw [hlast] at hlevel
      refine .inr ⟨hlevel, fun r hr => Nat.lt_of_not_le fun hle => ?_⟩
      obtain ⟨level, hr⟩ := List.getElem?_of_mem hr
      have := (hmem level).mpr ⟨r, hr, hle⟩
      rw [List.getLast?_eq_none_iff.mp hlast] at this
      cases this
  | some top =>
      rw [hlast] at hlevel
      rw [show levelFor ladder rate = top from hlevel]
      obtain ⟨lower, hpaid⟩ := List.getLast?_eq_some_iff.mp hlast
      obtain ⟨r, hr, hle⟩ := (hmem top).mp (List.mem_of_getLast? hlast)
      refine .inl ⟨r, hr, hle, fun level r' hr' hle' => ?_⟩
      have hin := (hmem level).mpr ⟨r', hr', hle'⟩
      rw [hpaid] at hin hsorted
      rcases List.mem_append.mp hin with hin | hin
      · exact Nat.le_of_lt ((List.pairwise_append.mp hsorted).2.2 level hin top (by simp))
      · exact Nat.le_of_eq (List.mem_singleton.mp hin)

end LevelRule

namespace Policy

/-- A segment of the highest bandwidth on the ladder that a rate can pay for, the topmost among
equal ones; of the lowest rung if the rate can pay for none. -/
structure Suits (m : Manifest) (rate : Nat) (s : Segment) : Prop where
  onLadder : (m.representations m.currentPeriod)[s.level]?.map Representation.bandwidth =
    some s.bandwidth
  paid : s.bandwidth ≤ rate ∨
    s.level = 0 ∧ ∀ r ∈ m.representations m.currentPeriod, rate < r.bandwidth
  highest : ∀ level r, (m.representations m.currentPeriod)[level]? = some r →
    r.bandwidth ≤ rate → r.bandwidth ≤ s.bandwidth ∧ level ≤ s.level

/-- A higher rate never suits a lower level. -/
theorem Suits.level_le {m : Manifest} {rate rate' : Nat} {s s' : Segment} (h : Suits m rate s)
    (h' : Suits m rate' s') (hle : rate ≤ rate') : s.level ≤ s'.level := by
  rcases h.paid with hpaid | ⟨hbase, -⟩
  · obtain ⟨r, hr, hbandwidth⟩ := Option.map_eq_some_iff.mp h.onLadder
    exact (h'.highest s.level r hr (by omega)).2
  · omega

/-- On a ladder in order the segment of the level for a rate suits the rate. -/
theorem suits_levelFor {m : Manifest} {rate number : Nat} {s : Segment}
    (hsorted : (m.representations m.currentPeriod).Pairwise fun r r' => r.bandwidth ≤ r'.bandwidth)
    (hs : m.segment? (LevelRule.levelFor (m.representations m.currentPeriod) rate) number =
      some s) : Suits m rate s := by
  have hbandwidth := Manifest.bandwidth_of_segment? hs
  obtain ⟨hlevel, -, -, -⟩ := Manifest.segment?_spec hs
  rw [← hlevel] at hbandwidth
  rcases LevelRule.levelFor_spec (m.representations m.currentPeriod) rate with
    ⟨top, htop, hpaid, hhighest⟩ | ⟨hbase, hnone⟩
  · rw [← hlevel] at htop hhighest
    have hsame : top.bandwidth = s.bandwidth := by simpa [htop] using hbandwidth
    refine ⟨hbandwidth, .inl (hsame ▸ hpaid), fun level r hr hle => ?_⟩
    have hbelow := hhighest level r hr hle
    refine ⟨?_, hbelow⟩
    -- A lower rung has no higher bandwidth, since the ladder is sorted.
    rcases Nat.lt_or_eq_of_le hbelow with hlt | rfl
    · obtain ⟨hlevel, rfl⟩ := List.getElem?_eq_some_iff.mp hr
      obtain ⟨htop', rfl⟩ := List.getElem?_eq_some_iff.mp htop
      exact hsame ▸ List.pairwise_iff_getElem.mp hsorted level s.level hlevel htop' hlt
    · obtain rfl := Option.some.inj (hr.symm.trans htop)
      exact Nat.le_of_eq hsame
  · refine ⟨hbandwidth, .inr ⟨hlevel.trans hbase, hnone⟩, fun level r hr hle => ?_⟩
    exact absurd hle (Nat.not_le.mpr (hnone r (List.mem_of_getElem? hr)))

/-! ### Histories -/

/-- The rate that a policy is told of. -/
def Call.rate? : Call → Option Nat
  | .delivered d => some d.throughput
  | _ => none

/-- The rates of the deliveries among calls, the oldest first. -/
def rates (calls : List Call) : List Nat := calls.filterMap Call.rate?

/-- A call adds its rate, if it has one, to those that were measured. -/
theorem rates_concat (past : List Call) (call : Call) :
    rates (past ++ [call]) = rates past ++ call.rate?.toList := by
  simp only [rates, List.filterMap_append]
  cases h : call.rate? <;> simp [h]

/-- What a policy that measures rates estimates. -/
def estimate? : Policy → Option Nat
  | .sequential ⟨.measured rates _, _⟩ => LevelRule.estimate? rates
  | _ => none

/-- The rates of deliveries are words. -/
theorem lt_of_mem_rates {calls : List Call} {rate : Nat} (h : rate ∈ rates calls) :
    rate < word64 := by
  obtain ⟨call, -, hrate⟩ := List.mem_filterMap.mp h
  cases call with
  | delivered d => exact Option.some.inj hrate ▸ throughput_lt d.bytes.size d.elapsed
  | next | failed | abandoned => cases hrate

/-- A rule learns from the rate of a call, if it has one, and from nothing else. -/
theorem exists_perform (m : Manifest) (s : Sequential) (call : Call) :
    ∃ events t, (sequential s).perform m call = .ok (events, .sequential t) ∧
      t.rule = call.rate?.elim s.rule s.rule.observe := by
  cases call with
  | next b h =>
      refine ⟨_, _, rfl, ?_⟩
      show (s.take m b).2.rule = s.rule
      unfold Sequential.take
      split <;> rfl
  | delivered | failed | abandoned => exact ⟨_, _, rfl, rfl⟩

/-- A policy keeps the last rates that there were. -/
def Measures (window : Nat) (past : List Call) (s : Sequential) : Prop :=
  s.rule = .measured ((rates past).rtake window) window

/-- Every call leaves the last rates with the policy. -/
theorem Measures.perform {window : Nat} {past : List Call} {s : Sequential}
    (h : Measures window past s) (hwindow : 0 < window) (m : Manifest) (call : Call) :
    ∃ events t, (sequential s).perform m call = .ok (events, .sequential t) ∧
      Measures window (past ++ [call]) t := by
  obtain ⟨events, t, hcall, hrule⟩ := exists_perform m s call
  refine ⟨events, t, hcall, ?_⟩
  rw [Measures, rates_concat]
  rw [show s.rule = _ from h] at hrule
  cases hrate : call.rate? with
  | none =>
      rw [hrate] at hrule
      simpa using hrule
  | some rate =>
      rw [hrate] at hrule
      exact hrule.trans (LevelRule.observe_recent (rates past) rate hwindow)

/-- The estimate of a policy is that of the last rates. -/
theorem Measures.estimate? {window : Nat} {past : List Call} {s : Sequential}
    (h : Measures window past s) :
    (sequential s).estimate? = LevelRule.estimate? ((rates past).rtake window) := by
  rcases s with ⟨rule, next⟩
  rw [show rule = _ from h]
  rfl

/-- After some history, and with this estimate, a policy of these settings hands a segment out. -/
def HandsOut (settings : PolicySettings) (m : Manifest) (estimate : Option Nat) (s : Segment) :
    Prop :=
  ∃ calls log p b h batch p', (ofSettings settings m).performAll m [] calls = .ok (log, p) ∧
    p.estimate? = estimate ∧ p.next m b h = .ok (batch, p') ∧ s ∈ batch

section
variable {raw m : Manifest} {settings : PolicySettings}

/-- The rate-based policy keeps the last rates over every history. -/
theorem exists_measures (hkind : settings.kind = .rateBased) (m : Manifest) (calls : List Call) :
    ∃ log s, (ofSettings settings m).performAll m [] calls = .ok (log, .sequential s) ∧
      Measures (max settings.rateHistory 1) calls s := by
  have hwindow : 0 < max settings.rateHistory 1 := by omega
  have hfirst : Measures (max settings.rateHistory 1) []
      { rule := .measured [] (max settings.rateHistory 1) } := by
    simp [Measures, rates]
  have hstart : ofSettings settings m =
      .sequential { rule := .measured [] (max settings.rateHistory 1) } := by
    rw [ofSettings, hkind]
  rw [hstart]
  exact performAll_keeps (fun past _ s => Measures (max settings.rateHistory 1) past s)
    (fun _ _ _ call h => h.perform hwindow m call) [] calls hfirst

/-- What a policy that measures rates hands out suits its estimate. -/
theorem Measures.suits {window : Nat} {past : List Call} {s : Sequential}
    (h : Measures window past s) (hm : raw.normalize = .ok m) {b : PlayoutBuffer}
    {holdings : Holdings} {batch : List Segment} {p' : Policy}
    (hnext : (sequential s).next m b holdings = .ok (batch, p')) {out : Segment}
    (hout : out ∈ batch) :
    ((sequential s).estimate? = none → out.level = 0) ∧
      ∀ rate, (sequential s).estimate? = some rate → Suits m rate out := by
  cases next_cases hnext with
  | ended gone => cases hout
  | @counted _ segment there =>
      obtain rfl := List.mem_singleton.mp hout
      rw [show s.rule = _ from h, LevelRule.level] at there
      rw [h.estimate?]
      constructor
      · intro hnone
        rw [hnone] at there
        exact (Manifest.segment?_spec there).1
      · intro rate hrate
        rw [hrate] at there
        exact suits_levelFor (Manifest.sorted_of_normalize hm m.currentPeriod) there

/-- **The rate-based policy follows its estimate.** Take a normalized manifest and any history of
asking, deliveries, failures and abandonments. The estimate is the mean of the last rates, rounded
down, as many as the settings say but at least one, and none before the first delivery. The mean is
a word, and the sum of the rates is one of twice the length if the length of the window is a word.
Whatever is handed out next suits the estimate, and is of the lowest level if there is none.

So a higher estimate never leads to a lower level, in one history or in two. -/
theorem follows_estimate (hm : raw.normalize = .ok m) (hkind : settings.kind = .rateBased) :
    (∀ calls, ∃ log p recent, (ofSettings settings m).performAll m [] calls = .ok (log, p) ∧
      recent <:+ rates calls ∧
      recent.length = min (rates calls).length (max settings.rateHistory 1) ∧
      p.estimate? = (if recent = [] then none else some (recent.sum / recent.length)) ∧
      (∀ rate ∈ p.estimate?, rate < word64) ∧
      (settings.rateHistory < word64 → recent.sum < word64 * word64) ∧
      ∀ b h, ∃ batch p', p.next m b h = .ok (batch, p') ∧ ∀ s ∈ batch,
        (p.estimate? = none → s.level = 0) ∧
          ∀ rate, p.estimate? = some rate → Suits m rate s) ∧
    ∀ rate rate' s s', HandsOut settings m (some rate) s → HandsOut settings m (some rate') s' →
      rate ≤ rate' → s.level ≤ s'.level := by
  have hsuits : ∀ rate s, HandsOut settings m (some rate) s → Suits m rate s := by
    rintro rate s ⟨calls, log, p, b, h, batch, p', hrun, hestimate, hnext, hs⟩
    obtain ⟨log', t, hrun', ht⟩ := exists_measures hkind m calls
    obtain ⟨rfl, rfl⟩ := Prod.mk.inj (Except.ok.inj (hrun.symm.trans hrun'))
    exact (ht.suits hm hnext hs).2 rate hestimate
  constructor
  · intro calls
    obtain ⟨log, s, hrun, hs⟩ := exists_measures hkind m calls
    let recent := (rates calls).rtake (max settings.rateHistory 1)
    have hsuffix : recent <:+ rates calls := List.drop_suffix _ _
    have hlength : recent.length = min (rates calls).length (max settings.rateHistory 1) := by
      simp only [recent, List.rtake, List.length_drop]
      omega
    have hwords : ∀ rate ∈ recent, rate < word64 := fun rate hrate =>
      lt_of_mem_rates (hsuffix.subset hrate)
    refine ⟨log, .sequential s, recent, hrun, hsuffix, hlength, ?_, ?_, ?_, ?_⟩
    · rw [hs.estimate?, LevelRule.estimate?_eq]
    · intro rate hrate
      exact LevelRule.estimate?_lt hwords (hs.estimate? ▸ hrate)
    · intro hword
      refine LevelRule.sum_lt hwords ?_
      have hone : 1 < word64 := by decide
      omega
    · intro b h
      have hnext : (sequential s).next m b h = .ok ((s.take m b).1, .sequential (s.take m b).2) :=
        rfl
      exact ⟨_, _, hnext, fun out hout => hs.suits hm hnext hout⟩
  · intro rate rate' s s' hs hs' hle
    exact (hsuits rate s hs).level_le (hsuits rate' s' hs') hle

/-- Three deliveries, of which two are remembered. -/
def sampleDeliveries : List Delivery :=
  [(1, 5), (2, 0), (3, 4)].map fun (count, elapsed) =>
    { segment := sampleSegment, bytes := ⟨Array.replicate count 0⟩, started := 0, elapsed
      tally := {} }

/-- After the sample the estimate is the mean of the last two rates, and the segment that is handed
out suits it. -/
theorem follows_estimate_sample :
    ∃ m log p s p' rate, sampleLadder.normalize = .ok m ∧
      (ofSettings { kind := .rateBased, rateHistory := 2 } m).performAll m []
        (sampleDeliveries.map .delivered) = .ok (log, p) ∧
      rate = (throughput 2 0 + throughput 3 4) / 2 ∧ p.estimate? = some rate ∧
      p.next m { capacity := 0 } {} = .ok ([s], p') ∧ s.level = 2 ∧ Suits m rate s := by
  have hvalue : (sampleLadder.normalize.toOption.bind fun m =>
      ((ofSettings { kind := .rateBased, rateHistory := 2 } m).performAll m []
        (sampleDeliveries.map .delivered)).toOption.bind fun x =>
          (x.2.next m { capacity := 0 } {}).toOption.map fun y => y.1.map (·.level)) =
      some [2] := by
    decide +kernel
  obtain ⟨m, hm, hvalue⟩ := Checked.exists_of_bind_toOption hvalue
  obtain ⟨⟨log, p⟩, hrun, hvalue⟩ := Checked.exists_of_bind_toOption hvalue
  obtain ⟨⟨batch, p'⟩, hnext, hbatch⟩ := Checked.exists_of_map_toOption hvalue
  obtain ⟨s, rfl, hlevel⟩ := List.map_eq_singleton_iff.mp hbatch
  have hkind : ({ kind := .rateBased, rateHistory := 2 } : PolicySettings).kind = .rateBased := rfl
  obtain ⟨log', q, recent, hrun', hsuffix, hlength, hestimate, -, -, hanswers⟩ :=
    (follows_estimate hm hkind).1 (sampleDeliveries.map .delivered)
  obtain ⟨rfl, rfl⟩ := Prod.mk.inj (Except.ok.inj (hrun'.symm.trans hrun))
  have hrecent : recent = [throughput 2 0, throughput 3 4] := by
    rw [List.suffix_iff_eq_drop.mp hsuffix, hlength]
    rfl
  have hestimate : q.estimate? = some ((throughput 2 0 + throughput 3 4) / 2) := by
    rw [hestimate, hrecent]
    rfl
  obtain ⟨batch, q', hnext', hsuits⟩ := hanswers { capacity := 0 } {}
  obtain ⟨rfl, -⟩ := Prod.mk.inj (Except.ok.inj (hnext'.symm.trans hnext))
  exact ⟨m, _, q, s, p', _, hm, hrun, rfl, hestimate, hnext, hlevel,
    (hsuits s List.mem_cons_self).2 _ hestimate⟩

end

end Policy

end LayerCast
