import LayerCast.Proofs.Transfer.Tame
import LayerCast.Proofs.Transfer.Timers

/-!
# `LayerCast.Proofs.Transfer.RoundTrip`: which answers are samples

For every chunk that waits for an answer an estimate keeps one entry: when the chunk was requested
last, and whether it was requested before. What has to hold is a law about histories. The answer for
a chunk is a sample if the chunk was requested exactly once since it was answered last, or since all
requests were forgotten (`waiting`). The backoff factor counts the setbacks since the last sample
(`doublings`).

What an answer does is said by one equation (`ack_eq`). It can fail only where it is a sample, and
then only if the smoothed values are no lengths of time any more. `lookup_after` says that the entry
is all that has to be known of a history, `multiplier_after` counts the doublings, and
`exists_after` names conditions under which no history fails. The law is `sampled_iff_sent_once`.
-/

set_option autoImplicit false

namespace LayerCast.RoundTrip

/-! ### Histories -/

/-- What an estimate is told. -/
inductive Step where
  /-- A chunk is requested. -/
  | sent (chunk now : Nat)
  /-- A chunk is answered. -/
  | ack (chunk now : Nat)
  /-- A request was in vain. -/
  | backOff
  /-- The requests that wait for an answer are forgotten. -/
  | forget
  deriving DecidableEq, Repr

/-- The estimate after one step. -/
def step (r : RoundTrip) : Step → Checked RoundTrip
  | .sent chunk now => .ok (r.sent chunk now)
  | .ack chunk now => return (← r.ack chunk now).2
  | .backOff => .ok r.backOff
  | .forget => .ok r.forget

/-- The estimate after a history, which begins with its latest step. -/
def after (settings : RoundTripSettings) : List Step → Checked RoundTrip
  | [] => .ok (ofSettings settings)
  | s :: earlier => do (← after settings earlier).step s

/-- The moments at which a chunk was requested since it was answered last, or since all requests
were forgotten. The latest one comes first. -/
def waiting (chunk : Nat) : List Step → List Nat
  | [] => []
  | .sent c now :: earlier =>
    if chunk = c then now :: waiting chunk earlier else waiting chunk earlier
  | .ack c _ :: earlier => if chunk = c then [] else waiting chunk earlier
  | .backOff :: earlier => waiting chunk earlier
  | .forget :: _ => []

/-- The time that an answer has taken, if it can only be the answer to one request. -/
def sample? (times : List Nat) (now : Nat) : Option Nat :=
  match times with
  | [time] => some (Instant.since now time)
  | _ => none

/-- The number of setbacks since the last answer that was a sample. -/
def doublings : List Step → Nat
  | [] => 0
  | .backOff :: earlier => doublings earlier + 1
  | .ack chunk now :: earlier =>
    if (sample? (waiting chunk earlier) now).isSome then 0 else doublings earlier
  | _ :: earlier => doublings earlier

/-- The entry for a chunk that was requested at these moments. -/
def entryFor : List Nat → Option Sent
  | [] => none
  | time :: earlier => some ⟨time, !earlier.isEmpty⟩

/-- The sample that an entry makes of an answer. -/
def sampleOf (entry : Option Sent) (now : Nat) : Option Nat :=
  match entry with
  | some s => if s.repeated then none else some (Instant.since now s.time)
  | none => none

/-- An estimate for which a chunk does not wait any more. -/
def answered (r : RoundTrip) (chunk : Nat) : RoundTrip :=
  { r with outstanding := without r.outstanding chunk }

section
variable {r next : RoundTrip} {settings : RoundTripSettings} {history : List Step}
  {chunk now i : Nat} {answer : Option Nat}

/-! ### Entries -/

/-- What the entry tells about requests that were sent at these moments. -/
theorem entryFor_cons (times : List Nat) :
    entryFor (now :: times) = some ⟨now, (entryFor times).isSome⟩ := by
  cases times <;> rfl

/-- An entry makes a sample of an answer if it tells of one request. -/
theorem sampleOf_entryFor (times : List Nat) (now : Nat) :
    sampleOf (entryFor times) now = sample? times now := by
  match times with
  | [] => rfl
  | [time] => rfl
  | time :: other :: earlier => rfl

/-- A chunk that is requested while it waits is marked. -/
theorem lookup_sent (r : RoundTrip) (chunk now i : Nat) :
    (r.sent chunk now).outstanding.lookup i =
      if i = chunk then some ⟨now, (r.outstanding.lookup chunk).isSome⟩
      else r.outstanding.lookup i := by
  have hsent : (r.sent chunk now).outstanding =
      (chunk, ⟨now, (r.outstanding.lookup chunk).isSome⟩) ::
        r.outstanding.filter (·.1 != chunk) := rfl
  rw [hsent, lookup_entry, lookup_filter_ne]
  split <;> rfl

/-! ### Answers -/

/-- The requests that wait do not matter for what a sample does to the estimate, and neither does
the backoff. -/
theorem measure_with (r : RoundTrip) (outstanding : List (Nat × Sent)) (multiplier sample : Nat) :
    ({ r with outstanding, multiplier } : RoundTrip).measure sample =
      (r.measure sample).map fun m => { m with outstanding } := by
  unfold measure
  cases r.mean with
  | none => rfl
  | some mean =>
      simp only
      cases Span.ofSeconds _ with
      | error fault => rfl
      | ok newMean => cases Span.ofSeconds _ <;> rfl

/-- A sample ends the backoff, and the requests that wait go on waiting. -/
theorem of_measure {sample : Nat} (h : r.measure sample = .ok next) :
    next.settings = r.settings ∧ next.outstanding = r.outstanding ∧ next.multiplier = 1 := by
  unfold measure at h
  split at h
  · obtain rfl := Except.ok.inj h
    exact ⟨rfl, rfl, rfl⟩
  · obtain ⟨mean, -, h⟩ := Checked.bind_eq_ok_iff.mp h
    obtain ⟨deviation, -, h⟩ := Checked.bind_eq_ok_iff.mp h
    obtain rfl := Except.ok.inj h
    exact ⟨rfl, rfl, rfl⟩

/-- **An answer** is a sample or not as the entry for the chunk says, and a sample is taken into the
estimate. The chunk does not wait any more. -/
theorem ack_eq (r : RoundTrip) (chunk now : Nat) :
    r.ack chunk now =
      match sampleOf (r.outstanding.lookup chunk) now with
      | none => .ok (none, r.answered chunk)
      | some sample => (r.measure sample).map fun m => (some sample, m.answered chunk) := by
  unfold ack
  cases hentry : r.outstanding.lookup chunk with
  | none =>
      -- There is nothing to forget where no request was waiting.
      have hsame : r.answered chunk = r := by
        unfold answered without
        rw [filter_ne_of_lookup_eq_none hentry]
      rw [hsame]
      rfl
  | some s =>
      unfold sampleOf
      simp only
      split
      · rfl
      · -- The entry may be left out before the sample is taken or after it.
        simp only [measure_with r (without r.outstanding chunk) r.multiplier]
        cases hm : r.measure (Instant.since now s.time) with
        | error fault => rfl
        | ok m =>
            have hkept := (of_measure hm).2.1
            show Except.ok (some _, { m with outstanding := _ }) =
              Except.ok (some _, m.answered chunk)
            rw [answered, hkept]

/-- An answer that returns was a sample of the estimate, or no sample. -/
theorem ack_cases (h : r.ack chunk now = .ok (answer, next)) :
    answer = sampleOf (r.outstanding.lookup chunk) now ∧
      (answer = none ∧ next = r.answered chunk ∨
        ∃ sample m, answer = some sample ∧ r.measure sample = .ok m ∧ next = m.answered chunk) := by
  rw [ack_eq] at h
  cases hsample : sampleOf (r.outstanding.lookup chunk) now with
  | none =>
      rw [hsample] at h
      obtain ⟨rfl, rfl⟩ := Prod.mk.inj (Except.ok.inj h)
      exact ⟨rfl, .inl ⟨rfl, rfl⟩⟩
  | some sample =>
      simp only [hsample] at h
      cases hm : r.measure sample with
      | error fault =>
          rw [hm] at h
          cases h
      | ok m =>
          rw [hm] at h
          obtain ⟨rfl, rfl⟩ := Prod.mk.inj (Except.ok.inj h)
          exact ⟨rfl, .inr ⟨sample, m, rfl, hm, rfl⟩⟩

/-- A chunk that is answered does not wait any more. -/
theorem lookup_ack (h : r.ack chunk now = .ok (answer, next)) (i : Nat) :
    next.outstanding.lookup i = if i = chunk then none else r.outstanding.lookup i := by
  have hleft : next.outstanding = without r.outstanding chunk := by
    obtain ⟨-, ⟨-, rfl⟩ | ⟨sample, m, -, hm, rfl⟩⟩ := ack_cases h
    · rfl
    · rw [answered, (of_measure hm).2.1]
  rw [hleft]
  exact lookup_filter_ne r.outstanding chunk i

/-- An answer that is a sample ends the backoff. -/
theorem multiplier_ack (h : r.ack chunk now = .ok (answer, next)) :
    next.multiplier = if answer.isSome then 1 else r.multiplier := by
  obtain ⟨-, ⟨rfl, rfl⟩ | ⟨sample, m, rfl, hm, rfl⟩⟩ := ack_cases h
  · rfl
  · exact (of_measure hm).2.2

/-- An answer does not touch the settings. -/
theorem settings_ack (h : r.ack chunk now = .ok (answer, next)) : next.settings = r.settings := by
  obtain ⟨-, ⟨-, rfl⟩ | ⟨sample, m, -, hm, rfl⟩⟩ := ack_cases h
  · rfl
  · exact (of_measure hm).1

/-! ### Samples -/

/-- The estimate before the latest step of a history, and the step. -/
theorem after_cons {s : Step} (h : after settings (s :: history) = .ok next) :
    ∃ r, after settings history = .ok r ∧ r.step s = .ok next :=
  Checked.bind_eq_ok_iff.mp h

/-- The step of an answer. -/
theorem step_ack (h : r.step (.ack chunk now) = .ok next) :
    ∃ answer, r.ack chunk now = .ok (answer, next) := by
  obtain ⟨⟨answer, next⟩, hack, h⟩ := Checked.bind_eq_ok_iff.mp h
  obtain rfl := Except.ok.inj h
  exact ⟨answer, hack⟩

/-- **Entries**: what is kept for a chunk follows from the moments at which it was requested. -/
theorem lookup_after (h : after settings history = .ok r) (i : Nat) :
    r.outstanding.lookup i = entryFor (waiting i history) := by
  -- The history is read backwards: what the last step adds to the earlier ones.
  induction history generalizing r i with
  | nil =>
      obtain rfl := Except.ok.inj h
      rfl
  | cons s earlier ih =>
      obtain ⟨before, hbefore, hstep⟩ := after_cons h
      cases s with
      | sent c time =>
          obtain rfl := Except.ok.inj hstep
          rw [lookup_sent, waiting, ih hbefore, ih hbefore]
          split
          · rename_i hi
            rw [entryFor_cons, hi]
          · rfl
      | ack c time =>
          obtain ⟨answer, hack⟩ := step_ack hstep
          rw [lookup_ack hack, waiting, ih hbefore]
          split <;> rfl
      | backOff =>
          obtain rfl := Except.ok.inj hstep
          exact ih hbefore i
      | forget =>
          obtain rfl := Except.ok.inj hstep
          rfl

/-- A history does not touch the settings. -/
theorem settings_after (h : after settings history = .ok r) : r.settings = settings := by
  induction history generalizing r with
  | nil =>
      obtain rfl := Except.ok.inj h
      rfl
  | cons s earlier ih =>
      obtain ⟨before, hbefore, hstep⟩ := after_cons h
      rw [← ih hbefore]
      cases s with
      | ack c time =>
          obtain ⟨answer, hack⟩ := step_ack hstep
          exact settings_ack hack
      | _ =>
          obtain rfl := Except.ok.inj hstep
          rfl

/-- There is a sample if there was one request. -/
theorem sample?_eq_some_iff {times : List Nat} {sample : Nat} :
    sample? times now = some sample ↔ ∃ time, times = [time] ∧ sample = now - time := by
  constructor
  · intro h
    unfold sample? at h
    split at h
    · rename_i time
      exact ⟨time, rfl, (Option.some.inj h).symm⟩
    · cases h
  · rintro ⟨time, rfl, rfl⟩
    rfl

/-- An answer is a sample if the entry says that the chunk was requested once. -/
theorem fst_ack {times : List Nat} (h : r.ack chunk now = .ok (answer, next))
    (hentry : r.outstanding.lookup chunk = entryFor times) : answer = sample? times now := by
  rw [(ack_cases h).1, hentry, sampleOf_entryFor]

/-- **Backoff**: the factor doubles with every setback since the last sample, up to its bound. -/
theorem multiplier_after (h : after settings history = .ok r) :
    r.multiplier = min maxMultiplier (2 ^ doublings history) := by
  induction history generalizing r with
  | nil =>
      obtain rfl := Except.ok.inj h
      rfl
  | cons s earlier ih =>
      obtain ⟨before, hbefore, hstep⟩ := after_cons h
      cases s with
      | ack c time =>
          obtain ⟨answer, hack⟩ := step_ack hstep
          -- The backoff ends with the same answers that bring a sample.
          have hsample := fst_ack hack (lookup_after hbefore c)
          rw [multiplier_ack hack, doublings, ← hsample, ih hbefore]
          split <;> rfl
      | backOff =>
          obtain rfl := Except.ok.inj hstep
          show min (before.multiplier * 2) maxMultiplier = _
          rw [ih hbefore, doublings, Nat.pow_succ]
          unfold maxMultiplier
          omega
      | _ =>
          obtain rfl := Except.ok.inj hstep
          show before.multiplier = _
          exact ih hbefore

/-- The backoff factor never passes its bound. -/
theorem multiplier_after_le (h : after settings history = .ok r) :
    r.multiplier ≤ maxMultiplier := by
  rw [multiplier_after h]
  exact Nat.min_le_left _ _

/-! ### Histories that return -/

/-- **No history fails** if the gain is a part of 1 and all answers come within the horizon. -/
theorem exists_after (hgain : Binary64.IsPart settings.gain)
    (hnow : ∀ chunk now, Step.ack chunk now ∈ history → now ≤ horizon) :
    ∃ r, after settings history = .ok r ∧ r.Tame := by
  induction history with
  | nil => exact ⟨_, rfl, tame_ofSettings hgain⟩
  | cons s earlier ih =>
      obtain ⟨r, hr, htame⟩ := ih fun chunk now h => hnow chunk now (List.mem_cons_of_mem s h)
      have hafter (next : RoundTrip) (hstep : r.step s = .ok next) :
          after settings (s :: earlier) = .ok next :=
        Checked.bind_eq_ok_iff.mpr ⟨r, hr, hstep⟩
      cases s with
      | sent chunk now => exact ⟨_, hafter _ rfl, htame.sent chunk now⟩
      | backOff => exact ⟨_, hafter _ rfl, htame.backOff⟩
      | forget => exact ⟨_, hafter _ rfl, htame.forget⟩
      | ack chunk now =>
          -- Only an answer can fail, and none does within the horizon.
          obtain ⟨answer, next, hack, hnext⟩ :=
            htame.ack chunk (hnow chunk now List.mem_cons_self)
          refine ⟨next, hafter next ?_, hnext⟩
          exact Checked.bind_eq_ok_iff.mpr ⟨(answer, next), hack, rfl⟩

/-- **Samples are unambiguous.** Take an estimate with any settings, after any history that has not
failed. The backoff factor is that of the setbacks since the last sample. An answer for a chunk, if
it does not fail, is a sample exactly if the chunk was requested once since its last answer or since
all requests were forgotten, and then the sample is the time since that request. An answer that is
no sample does not fail, and changes neither the estimate nor the backoff.

Histories and answers fail only if the smoothed values grow out of all bounds. They do not if the
gain is a part of 1, and the answers come within the horizon. -/
theorem sampled_iff_sent_once (settings : RoundTripSettings) (history : List Step) :
    (Binary64.IsPart settings.gain →
        (∀ chunk now, Step.ack chunk now ∈ history → now ≤ horizon) →
        ∃ r, after settings history = .ok r ∧
          ∀ chunk now, now ≤ horizon → ∃ answer next, r.ack chunk now = .ok (answer, next)) ∧
      ∀ r, after settings history = .ok r →
        r.multiplier = min 64 (2 ^ doublings history) ∧
        (∀ chunk now answer next, r.ack chunk now = .ok (answer, next) → ∀ sample,
          (answer = some sample ↔
            ∃ time, waiting chunk history = [time] ∧ sample = now - time)) ∧
        ∀ chunk now, (¬∃ time, waiting chunk history = [time]) →
          ∃ outstanding, r.ack chunk now = .ok (none, { r with outstanding }) := by
  refine ⟨fun hgain hnow => ?returns, fun r hr => ⟨multiplier_after hr, ?_, ?_⟩⟩
  case returns =>
    obtain ⟨r, hr, htame⟩ := exists_after hgain hnow
    refine ⟨r, hr, fun chunk now hlast => ?_⟩
    obtain ⟨answer, next, hack, -⟩ := htame.ack chunk hlast
    exact ⟨answer, next, hack⟩
  · intro chunk now answer next hack sample
    rw [fst_ack hack (lookup_after hr chunk)]
    exact sample?_eq_some_iff
  · intro chunk now hambiguous
    have hnone : sample? (waiting chunk history) now = none := by
      refine Option.eq_none_iff_forall_ne_some.mpr fun sample hsample => hambiguous ?_
      obtain ⟨time, htimes, -⟩ := sample?_eq_some_iff.mp hsample
      exact ⟨time, htimes⟩
    refine ⟨without r.outstanding chunk, ?_⟩
    rw [ack_eq, lookup_after hr, sampleOf_entryFor, hnone]
    rfl

/-- Chunk 3 is requested at 0, and again at 500 after a setback; chunk 1 is requested at 510. The
latest step comes first. -/
def sampleHistory : List Step := [.sent 1 510, .sent 3 500, .backOff, .sent 3 0]

/-- The answer for chunk 1 is a sample, and that for chunk 3 changes nothing. -/
theorem sampled_iff_sent_once_sample :
    Binary64.IsPart ({} : RoundTripSettings).gain ∧
      ∃ r, after {} sampleHistory = .ok r ∧ r.multiplier = 2 ∧
        (∃ next, r.ack 1 520 = .ok (some 10, next)) ∧
        ∃ outstanding, r.ack 3 520 = .ok (none, { r with outstanding }) := by
  obtain ⟨hreturns, hlaw⟩ := sampled_iff_sent_once {} sampleHistory
  obtain ⟨r, hr, hack⟩ := hreturns isPart_default (by simp [sampleHistory])
  obtain ⟨hmultiplier, hsample, hnone⟩ := hlaw r hr
  obtain ⟨answer, next, hanswer⟩ := hack 1 520 (by decide)
  obtain rfl := (hsample 1 520 answer next hanswer 10).mpr ⟨510, rfl, rfl⟩
  refine ⟨isPart_default, r, hr, hmultiplier, ⟨next, hanswer⟩, hnone 3 520 ?_⟩
  rintro ⟨time, htimes⟩
  simp [waiting, sampleHistory] at htimes

end

end LayerCast.RoundTrip
