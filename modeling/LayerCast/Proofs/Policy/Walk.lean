import LayerCast.Proofs.Policy.Nature

/-!
# `LayerCast.Proofs.Policy.Walk`: nothing is skipped

A history of a policy is a list of `Call`s: it is asked for layers, with any buffer and any
holdings, and it is told of deliveries, of refused and of abandoned segments, in any order.
`Policy.performAll` makes the calls and keeps a log of what was handed out and what was lost.

A policy that is not layered has one number for all that it owes, `Sequential.next`. What is handed
out moves it on, and a loss moves it back. `Served log n` says of the log alone that nothing is owed
at `n`: a segment with that number was handed out after the last loss of a number up to `n`. `Walks`
says that every number below `next` is served. One call keeps this (`Walks.perform`), and so does
every history; `nothing_skipped` is what follows for the answers of the policy.

`performAll_keeps` is the induction over histories, for any invariant of the calls that were made,
the log and the policy.
-/

set_option autoImplicit false

namespace LayerCast

namespace Policy

/-! ### Histories -/

/-- A call of a policy. -/
inductive Call where
  | next (b : PlayoutBuffer) (h : Holdings)
  | delivered (d : Delivery)
  | failed (s : Segment)
  | abandoned (s : Segment)

/-- What the log has of a call. -/
inductive Event where
  | handedOut (s : Segment)
  /-- A segment was refused or abandoned. -/
  | lost (s : Segment)

/-- Makes one call and tells what there is to log. -/
def perform (m : Manifest) (p : Policy) : Call → Checked (List Event × Policy)
  | .next b h => do
    let (batch, p) ← p.next m b h
    return (batch.map .handedOut, p)
  | .delivered d => .ok ([], p.delivered d.throughput)
  | .failed s => .ok ([.lost s], p.failed s)
  | .abandoned s => .ok ([.lost s], p.abandoned s)

/-- Makes calls one after the other and goes on with the log. -/
def performAll (m : Manifest) (log : List Event) (p : Policy) :
    List Call → Checked (List Event × Policy)
  | [] => .ok (log, p)
  | call :: calls => do
    let (events, p) ← p.perform m call
    p.performAll m (log ++ events) calls

/-- What every call keeps, of the calls that were made, the log and a policy that is not layered,
holds after every history. -/
theorem performAll_keeps {m : Manifest} (Inv : List Call → List Event → Sequential → Prop)
    (hstep : ∀ past log s call, Inv past log s →
      ∃ events t, (sequential s).perform m call = .ok (events, .sequential t) ∧
        Inv (past ++ [call]) (log ++ events) t)
    (past calls : List Call) {log : List Event} {s : Sequential} (h : Inv past log s) :
    ∃ whole t, (sequential s).performAll m log calls = .ok (whole, .sequential t) ∧
      Inv (past ++ calls) whole t := by
  induction calls generalizing past log s with
  | nil => exact ⟨log, s, rfl, by simpa using h⟩
  | cons call calls ih =>
      obtain ⟨events, t, hcall, ht⟩ := hstep past log s call h
      obtain ⟨whole, u, hcalls, hu⟩ := ih (past ++ [call]) ht
      refine ⟨whole, u, ?_, by simpa using hu⟩
      show ((sequential s).perform m call >>= fun x => x.2.performAll m (log ++ x.1) calls) = _
      rw [hcall]
      exact hcalls

/-! ### What is served -/

/-- A segment with this number was handed out after the last loss of a number that is not above
it. -/
def Served (log : List Event) (n : Nat) : Prop :=
  ∃ before s after, log = before ++ .handedOut s :: after ∧ s.number = n ∧
    ∀ l, .lost l ∈ after → n < l.number

/-- What was handed out last counts as served. -/
theorem served_handedOut (log : List Event) (s : Segment) :
    Served (log ++ [.handedOut s]) s.number :=
  ⟨log, s, [], rfl, rfl, nofun⟩

/-- What is logged leaves a number served, unless it is the loss of one that is not above it. -/
theorem Served.append {log : List Event} {n : Nat} (h : Served log n) {events : List Event}
    (hnew : ∀ l, .lost l ∈ events → n < l.number) : Served (log ++ events) n := by
  obtain ⟨before, s, after, rfl, hnumber, hafter⟩ := h
  refine ⟨before, s, after ++ events, by simp, hnumber, ?_⟩
  intro l hl
  rcases List.mem_append.mp hl with hl | hl
  · exact hafter l hl
  · exact hnew l hl

/-! ### The walk -/

/-- A policy that walks through the numbers of the content. It has served all numbers that it has
left behind. -/
structure Walks (m : Manifest) (log : List Event) (s : Sequential) : Prop where
  inRange : s.rule.unmeasured.InRange m
  served : ∀ n < s.next, Served log n

section
variable {m : Manifest} {log : List Event} {s : Sequential}

/-- The segment of the next number is handed out, unless the walk is over. -/
theorem Walks.next (hw : Walks m log s) (hlevels : 0 < m.levels) (b : PlayoutBuffer)
    (h : Holdings) :
    (s.isExhausted m = true ∧ (sequential s).next m b h = .ok ([], .sequential s)) ∨
      (s.isExhausted m = false ∧ ∃ segment : Segment, segment.number = s.next ∧
        m.segment? segment.level segment.number = some segment ∧ segment.level < m.levels ∧
        (sequential s).next m b h =
          .ok ([segment], .sequential { s with next := s.next + 1 })) := by
  have hlevel := LevelRule.level_lt hlevels hw.inRange b
  have hnext : (sequential s).next m b h = .ok ((s.take m b).1, .sequential (s.take m b).2) := rfl
  rw [hnext, Sequential.take]
  cases hthere : m.segment? (s.rule.level m b) s.next with
  | none => exact .inl ⟨Sequential.isExhausted_of_gone hlevel hthere, rfl⟩
  | some segment =>
      obtain ⟨hsame, hnumber, hlt, -⟩ := Manifest.segment?_spec hthere
      refine .inr ⟨decide_eq_false (Nat.not_le.mpr hlt), segment, hnumber, ?_, hsame ▸ hlevel, rfl⟩
      rw [hsame, hnumber, hthere]

/-- The number that is handed out is served, and the walk goes on behind it. -/
theorem Walks.step (h : Walks m log s) {segment : Segment} (hnumber : segment.number = s.next) :
    Walks m (log ++ [.handedOut segment]) { s with next := s.next + 1 } := by
  refine ⟨h.inRange, ?_⟩
  intro n (hn : n < s.next + 1)
  rcases Nat.lt_succ_iff_lt_or_eq.mp hn with hn | rfl
  · exact (h.served n hn).append (by simp)
  · exact hnumber ▸ served_handedOut log segment

/-- A loss takes the walk back to where nothing is owed. -/
theorem Walks.rewind (h : Walks m log s) (l : Segment) :
    Walks m (log ++ [.lost l]) (s.rewind l.number) := by
  refine ⟨h.inRange, ?_⟩
  intro n (hn : n < min s.next l.number)
  obtain ⟨hnext, hlost⟩ := Nat.lt_min.mp hn
  refine (h.served n hnext).append ?_
  intro l' hl'
  simp only [List.mem_singleton, Event.lost.injEq] at hl'
  exact hl' ▸ hlost

/-- What arrives changes neither the rule nor what is served. -/
theorem Walks.observe (h : Walks m log s) (d : Delivery) :
    Walks m log (s.observe d.throughput) := by
  refine ⟨?_, h.served⟩
  show (s.rule.observe d.throughput).unmeasured.InRange m
  rw [LevelRule.unmeasured_observe]
  exact h.inRange

/-- Every call keeps the walk. -/
theorem Walks.perform (hw : Walks m log s) (hlevels : 0 < m.levels) (call : Call) :
    ∃ events t, (sequential s).perform m call = .ok (events, .sequential t) ∧
      Walks m (log ++ events) t := by
  cases call with
  | next b h =>
      have hcall : (sequential s).perform m (.next b h) =
          (sequential s).next m b h >>= fun x => .ok (x.1.map .handedOut, x.2) := rfl
      rcases hw.next hlevels b h with ⟨-, hnext⟩ | ⟨-, segment, hnumber, -, -, hnext⟩
      · rw [hcall, hnext]
        exact ⟨[], s, rfl, by simpa using hw⟩
      · rw [hcall, hnext]
        exact ⟨[.handedOut segment], _, rfl, hw.step hnumber⟩
  | delivered d => exact ⟨[], _, rfl, by simpa using hw.observe d⟩
  | failed l | abandoned l => exact ⟨_, _, rfl, hw.rewind l⟩

end

/-- **Single-representation policies skip nothing.** Take a policy that is not layered, for a
normalized manifest. After every history of asking, deliveries, failures and abandonments:

- it answers with nothing or with exactly one segment, which is that of a level and a number of the
  content, and it answers with nothing exactly when it is exhausted;
- every number below the one that it hands out is served, and every number of the content once it
  is exhausted. -/
theorem nothing_skipped {raw m : Manifest} (hm : raw.normalize = .ok m)
    {settings : PolicySettings} (hkind : settings.kind ≠ .layered) (calls : List Call) :
    ∃ log p, (ofSettings settings m).performAll m [] calls = .ok (log, p) ∧
      ∀ b h, ∃ batch p', p.next m b h = .ok (batch, p') ∧
        p.isExhausted m h = .ok batch.isEmpty ∧
        (batch = [] ∨ ∃ s, batch = [s] ∧ m.segment? s.level s.number = some s ∧
          s.level < m.levels ∧ s.number < m.currentTotal) ∧
        (∀ s ∈ batch, ∀ n < s.number, Served log n) ∧
        (p.isExhausted m h = .ok true → ∀ n < m.currentTotal, Served log n) := by
  have hlevels := Manifest.levels_pos_of_normalize hm
  obtain ⟨rule, hstart, hrange⟩ := exists_ofSettings hlevels hkind
  have hfirst : Walks m [] { rule } := ⟨hrange, fun n hn => absurd hn (Nat.not_lt_zero n)⟩
  -- By induction on the history: all numbers before the next one were served.
  obtain ⟨log, s, hrun, hw⟩ := performAll_keeps (fun _ log s => Walks m log s)
    (fun _ _ _ call h => h.perform hlevels call) [] calls hfirst
  refine ⟨log, .sequential s, hstart ▸ hrun, ?_⟩
  intro b h
  rcases hw.next hlevels b h with ⟨hexhausted, hnext⟩ | ⟨hmore, s', hnumber, hthere, hlt, hnext⟩
  · refine ⟨[], .sequential s, hnext, congrArg Except.ok hexhausted, .inl rfl, nofun, ?_⟩
    intro _ n hn
    exact hw.served n (Nat.lt_of_lt_of_le hn (of_decide_eq_true hexhausted))
  · have hrest : s'.number < m.currentTotal := (Manifest.segment?_spec hthere).2.2.1
    refine ⟨[s'], _, hnext, congrArg Except.ok hmore, .inr ⟨s', rfl, hthere, hlt, hrest⟩, ?_, ?_⟩
    · intro s'' hs'' n hn
      obtain rfl := List.mem_singleton.mp hs''
      exact hw.served n (hnumber ▸ hn)
    · intro hexhausted
      have hexhausted : s.isExhausted m = true := Except.ok.inj hexhausted
      rw [hmore] at hexhausted
      cases hexhausted

/-- A ladder that is not in order, of three segments. -/
def sampleLadder : Manifest :=
  let rung (id : String) (bandwidth : Nat) : Representation :=
    { id, bandwidth, segmentMillis := 2000, media := #["0", "1", "2"] }
  { baseUrl := "http://a", periods := [⟨[rung "high" 3000, rung "low" 1000, rung "mid" 2000]⟩] }

/-- The first segment of the lowest rung. -/
def sampleSegment : Segment :=
  { uri := "http://a/0", size := none, duration := 2000000000, level := 0, bandwidth := 1000,
    representation := "low", number := 0 }

/-- Two segments are handed out, the first of them fails, and both are handed out again. -/
def sampleCalls : List Call :=
  let ask : Call := .next { capacity := 10000000000 } {}
  [ask, ask, .failed sampleSegment, ask, ask]

/-- After the sample the last segment is handed out, and nothing before it is owed. -/
theorem nothing_skipped_sample :
    ∃ m log p s p', sampleLadder.normalize = .ok m ∧
      (ofSettings { kind := .alwaysLowest } m).performAll m [] sampleCalls = .ok (log, p) ∧
      p.next m { capacity := 0 } {} = .ok ([s], p') ∧ s.number = 2 ∧ ∀ n < 2, Served log n := by
  have hvalue : (sampleLadder.normalize.toOption.bind fun m =>
      ((ofSettings { kind := .alwaysLowest } m).performAll m [] sampleCalls).toOption.bind fun x =>
        (x.2.next m { capacity := 0 } {}).toOption.map fun y => y.1.map Segment.number) =
      some [2] := by
    decide +kernel
  obtain ⟨m, hm, hvalue⟩ := Option.bind_eq_some_iff.mp hvalue
  obtain ⟨⟨log, p⟩, hrun, hvalue⟩ := Option.bind_eq_some_iff.mp hvalue
  obtain ⟨⟨batch, p'⟩, hnext, hnumbers⟩ := Option.map_eq_some_iff.mp hvalue
  obtain ⟨s, rfl, hnumber⟩ := List.map_eq_singleton_iff.mp hnumbers
  have hm := Checked.eq_ok_of_toOption hm
  have hrun := Checked.eq_ok_of_toOption hrun
  have hnext := Checked.eq_ok_of_toOption hnext
  have hkind : ({ kind := .alwaysLowest } : PolicySettings).kind ≠ .layered := by decide
  obtain ⟨log', q, hrun', hanswers⟩ := nothing_skipped hm hkind sampleCalls
  obtain ⟨rfl, rfl⟩ := Prod.mk.inj (Except.ok.inj (hrun.symm.trans hrun'))
  obtain ⟨batch, p'', hnext', -, -, hserved, -⟩ := hanswers { capacity := 0 } {}
  obtain ⟨rfl, rfl⟩ := Prod.mk.inj (Except.ok.inj (hnext.symm.trans hnext'))
  exact ⟨m, log, p, s, p', hm, hrun, hnext, hnumber,
    fun n hn => hserved s List.mem_cons_self n (hnumber ▸ hn)⟩

end Policy

end LayerCast
