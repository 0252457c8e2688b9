import LayerCast.Proofs.Playback.Gapless
import LayerCast.Proofs.Playback.Terms

/-!
# `LayerCast.Proofs.Playback.Restart`: playback that is cancelled and started again

A player may play several times. Each time it is started, hears some cues, and is stopped, with a
batch out or not (`Player.attempt`). A stop gives up the layers that are in the pool. The layered
policy sees from what is held that they are still missing. The other policies count, and have
counted them already, so that a layer which is in the pool of such a player when it is stopped is
lost: it is never asked for again (`lost_when_stopped`).

`gapless_restarts` says that nothing else can be missing. Where no layer is lost in this way, the
segments that all playbacks together have played are 0, 1, 2, … as if there had been one.
-/

set_option autoImplicit false

namespace LayerCast

/-! ### Policies that lose sight of layers -/

/-- A policy stays in step when layers are given up behind its back, if it sees from what is held
that they are missing, or if there are none. -/
theorem Adaptation.InStep.forgotten {a : Adaptation} {held : List (Nat × Nat)} {first next : Nat}
    {out : List Segment} (h : a.InStep held first next out)
    (hsafe : a.isLayered = true ∨ out = []) : a.InStep held first next [] := by
  rcases hsafe with hlayered | rfl
  · obtain ⟨p, rfl, hp⟩ := h
    cases p with
    | layered l => exact ⟨_, rfl, hp.layered_sub fun s hs => nomatch hs⟩
    | sequential s => cases hlayered
  · exact h

namespace Player

variable {m : Manifest} {D spent first next : Nat} {p q : Player}

/-- Stopping keeps a player on its course if no layer is lost. -/
theorem OnCourse.stop (h : p.OnCourse m D spent first next)
    (hsafe : p.policy.isLayered = true ∨ p.pool.contents = []) (now : Nat) :
    (p.stop now).OnCourse m D spent first next := by
  unfold Player.stop
  split
  · exact h
  · obtain ⟨hsettled, hempty⟩ := Pool.stop_spec p.pool
    have hcourse : p.Course m D spent first next [] :=
      { h.course with policy := h.course.policy.forgotten hsafe }
    refine ⟨?_, ?_, hsettled, .inl rfl, fun _ => ⟨hempty, rfl⟩, fun hall => ⟨rfl, ?_⟩⟩
    · show Course m D spent first next p.pool.stop.contents _
      rw [hempty]
      exact { hcourse with }
    · show HasRoomFor m D p.pool.stop.contents _
      rw [hempty]
      exact hasRoomFor_nil m D _
    · exact (h.downloaded hall).2

/-! ### Lives of layered players -/

/-- One deed keeps a layered player on its course. A report that is taken has its time with it. -/
theorem OnCourse.does (h : p.OnCourse m D spent first next) (hlayered : p.policy.isLayered = true)
    {before after : Past} {deed : Deed} (hkeeps : ∀ policy, deed ≠ .adopt policy)
    (hq : p.does before deed = .ok (after, q)) :
    ∃ spent' first' next', q.OnCourse m D spent' first' next' := by
  cases deed with
  | play now =>
      obtain ⟨q', hplay, hq⟩ := Checked.bind_eq_ok_iff.mp hq
      obtain ⟨-, rfl⟩ := Prod.mk.inj (Except.ok.inj hq)
      exact ⟨spent, first, next, h.play hplay⟩
  | cue c =>
      obtain ⟨t, ht, hq⟩ := Checked.bind_eq_ok_iff.mp hq
      obtain ⟨-, rfl⟩ := Prod.mk.inj (Except.ok.inj hq)
      obtain ⟨count, next', -, hcourse⟩ := h.heed ht
      exact ⟨spent, first + count, next', hcourse⟩
  | stop now =>
      obtain ⟨-, rfl⟩ := Prod.mk.inj (Except.ok.inj hq)
      exact ⟨spent, first, next, h.stop (.inl hlayered) now⟩
  | takeReport =>
      obtain ⟨-, rfl⟩ := Prod.mk.inj (Except.ok.inj hq)
      -- The report is taken, and what it says was played counts as spent.
      refine ⟨spent + p.report.played, first, next, { h with course := { h.course with
        balance := ?_
        ended := fun hcompleted => nomatch hcompleted } }⟩
      exact h.course.balance
  | takeNotices =>
      obtain ⟨-, rfl⟩ := Prod.mk.inj (Except.ok.inj hq)
      exact ⟨spent, first, next, { h with course := { h.course with } }⟩
  | adopt policy => exact absurd rfl (hkeeps policy)

/-- **A life** keeps a layered player on its course. -/
theorem OnCourse.live (deeds : List Deed) (h : p.OnCourse m D spent first next)
    (hlayered : p.policy.isLayered = true) (hkeeps : ∀ policy, Deed.adopt policy ∉ deeds)
    {before after : Past} (hq : p.live before deeds = .ok (after, q)) :
    ∃ spent' first' next', q.OnCourse m D spent' first' next' := by
  -- Induction on the deeds, from any point of any playback.
  induction deeds generalizing p before spent first next with
  | nil =>
      obtain ⟨-, rfl⟩ := Prod.mk.inj (Except.ok.inj hq)
      exact ⟨spent, first, next, h⟩
  | cons deed rest ih =>
      obtain ⟨⟨between, p'⟩, hdeed, hrest⟩ := Checked.bind_eq_ok_iff.mp hq
      have hfirst : ∀ policy, deed ≠ .adopt policy := fun policy hadopt =>
        hkeeps policy (hadopt ▸ List.mem_cons_self)
      obtain ⟨spent', first', next', hcourse⟩ := h.does hlayered hfirst hdeed
      have hstays := isLayered_of_terms (changes_does h.settled hfirst hdeed).terms
      exact ih hcourse (hstays.trans hlayered)
        (fun policy hadopt => hkeeps policy (List.mem_cons_of_mem _ hadopt)) hrest

/-! ### Attempts -/

/-- A playback that is stopped. -/
structure Attempt where
  start : Nat
  cues : List Cue
  stop : Nat

/-- What several attempts have come to. -/
structure Attempted where
  /-- The numbers of the segments that were played to their end, in order. -/
  numbers : List Nat := []
  /-- The layers that were in the pool when the player was stopped. -/
  lost : List Segment := []
  player : Player

/-- One attempt. -/
def attempt (p : Player) (a : Attempt) : Checked Attempted := do
  let q ← p.play a.start
  let t ← q.perform a.cues
  return {
    numbers := t.numbers
    lost := t.player.pool.contents
    player := t.player.stop a.stop }

/-- Several attempts, one after another. -/
def attempts (p : Player) : List Attempt → Checked Attempted
  | [] => .ok { player := p }
  | a :: rest => do
    let r ← p.attempt a
    let later ← r.player.attempts rest
    return { later with numbers := r.numbers ++ later.numbers, lost := r.lost ++ later.lost }

/-- An attempt is made of changes. -/
theorem changes_attempt (h : p.pool.Settled) {a : Attempt} {r : Attempted}
    (hr : p.attempt a = .ok r) : p.Changes r.player := by
  obtain ⟨q, hplay, hr⟩ := Checked.bind_eq_ok_iff.mp hr
  obtain ⟨t, ht, hr⟩ := Checked.bind_eq_ok_iff.mp hr
  obtain rfl := Except.ok.inj hr
  have hstart := changes_play hplay
  exact hstart.trans ((changes_perform a.cues (hstart.settled h) ht).trans (changes_stop _ a.stop))

/-- **One attempt** in which no layer is lost keeps a player on its course. -/
theorem OnCourse.attempt (h : p.OnCourse m D spent first next) {a : Attempt} {r : Attempted}
    (hr : p.attempt a = .ok r) (hsafe : p.policy.isLayered = true ∨ r.lost = []) :
    ∃ count next', r.numbers = List.range' first count ∧
      r.player.OnCourse m D spent (first + count) next' := by
  obtain ⟨q, hplay, hr⟩ := Checked.bind_eq_ok_iff.mp hr
  obtain ⟨t, ht, hr⟩ := Checked.bind_eq_ok_iff.mp hr
  obtain rfl := Except.ok.inj hr
  obtain ⟨count, next', hnumbers, hcourse⟩ := (h.play hplay).perform a.cues ht
  have hstart := changes_play hplay
  have hchanges := hstart.trans (changes_perform a.cues (hstart.settled h.settled) ht)
  have hlayered := isLayered_of_terms hchanges.terms
  exact ⟨count, next', hnumbers, hcourse.stop (hlayered ▸ hsafe) a.stop⟩

/-- **Several attempts** in which no layer is lost keep a player on its course. -/
theorem OnCourse.attempts (earlier : List Attempt) (h : p.OnCourse m D spent first next)
    {r : Attempted} (hr : p.attempts earlier = .ok r)
    (hsafe : p.policy.isLayered = true ∨ r.lost = []) :
    ∃ count next', r.numbers = List.range' first count ∧
      r.player.OnCourse m D spent (first + count) next' := by
  induction earlier generalizing p first next r with
  | nil =>
      obtain rfl := Except.ok.inj hr
      exact ⟨0, next, rfl, h⟩
  | cons a rest ih =>
      obtain ⟨r₁, hr₁, hr⟩ := Checked.bind_eq_ok_iff.mp hr
      obtain ⟨later, hlater, hr⟩ := Checked.bind_eq_ok_iff.mp hr
      obtain rfl := Except.ok.inj hr
      have hlayered := isLayered_of_terms (changes_attempt h.settled hr₁).terms
      obtain ⟨count, between, hnumbers, hcourse⟩ :=
        h.attempt hr₁ (hsafe.imp_right fun hnone => (List.append_eq_nil_iff.mp hnone).1)
      obtain ⟨count', next', hnumbers', hend⟩ :=
        ih hcourse hlater
          (hlayered ▸ hsafe.imp_right fun hnone => (List.append_eq_nil_iff.mp hnone).2)
      -- What the first attempt has played comes right before what the others have.
      refine ⟨count + count', next', ?_, ?_⟩
      · rw [hnumbers, hnumbers', List.range'_append_1]
      · rw [← Nat.add_assoc]
        exact hend

/-! ### The result -/

/-- **Playback is gapless across restarts.** A new player plays content of which all segments take
`D` nanoseconds, and is stopped and started again any number of times, at any point. If its policy
is layered, or no layer was in the pool when it was stopped, the segments that are played to their
end by all playbacks together are 0, 1, 2, … in this order. If the report says that playback came to
the end of the content, then all segments were played, and the time of all of them. -/
theorem gapless_restarts {raw m : Manifest} {D : Nat} {settings : PlayerSettings}
    {faces start : Nat} {p q : Player} {earlier : List Attempt} {r : Attempted} {cues : List Cue}
    {t : Ticked} (hm : raw.normalize = .ok m)
    (hD : ∀ r ∈ m.representations m.currentPeriod, r.duration = D)
    (hnew : Player.ofSettings settings m faces = .ok (.ok p))
    (hearlier : p.attempts earlier = .ok r)
    (hkept : settings.policy.kind = .layered ∨ r.lost = [])
    (hplay : r.player.play start = .ok q) (hrun : q.perform cues = .ok t) :
    ∃ count, r.numbers ++ t.numbers = List.range count ∧
      (t.player.report.completed = true →
        count = m.totalSegments m.currentPeriod ∧ t.player.report.played = count * D) := by
  have hsafe : p.policy.isLayered = true ∨ r.lost = [] := by
    refine hkept.imp_left fun hkind => ?_
    obtain ⟨policy, pool, hpolicy, -, rfl⟩ := ofSettings_eq_ok hnew
    rw [← Adaptation.layered_nature]
    exact (Policy.nature_build hpolicy).1.mpr hkind
  have hnewborn := onCourse_ofSettings hnew (steady_of_ofSettings hm hD hnew p.policy.isLayered)
  obtain ⟨count, next, hnumbers, hcourse⟩ := hnewborn.attempts earlier hearlier hsafe
  obtain ⟨count', next', hnumbers', hend⟩ := (hcourse.play hplay).perform cues hrun
  refine ⟨count + count', ?_, fun hcompleted => ?_⟩
  · rw [hnumbers, hnumbers', Nat.zero_add, List.range_eq_range', ← List.range'_append_1,
      Nat.zero_add]
  · obtain ⟨hcount, hplayed⟩ := hend.all_played hcompleted
    simp only [Nat.zero_add] at hcount hplayed
    exact ⟨hcount, hplayed⟩

/-- Playback is stopped while the first of the two segments is out. -/
def sampleAttempt : Attempt := { start := 0, cues := [.sent fun _ => false], stop := 10000000 }

/-- The same player with the layered policy, which asks for what is missing. -/
def layeredSettings : PlayerSettings := { sampleSettings with policy := { kind := .layered } }

/-- The layered policy plays both segments of the sample, though the first one was lost. -/
theorem gapless_restarts_sample :
    ∃ m p r q t, sampleManifest.normalize = .ok m ∧
      (∀ r ∈ m.representations m.currentPeriod, r.duration = 1250000000) ∧
      Player.ofSettings layeredSettings m 1 = .ok (.ok p) ∧
      p.attempts [sampleAttempt] = .ok r ∧ r.lost.map Segment.number = [0] ∧
      r.player.play 10000000 = .ok q ∧ q.perform sampleCues = .ok t ∧
      t.player.report.completed = true ∧ r.numbers ++ t.numbers = [0, 1] ∧
      t.player.report.played = 2500000000 := by
  have hvalue : (sampleManifest.normalize.toOption.bind fun m =>
      (Player.ofSettings layeredSettings m 1).toOption.bind fun r => r.toOption.bind fun p =>
        (p.attempts [sampleAttempt]).toOption.bind fun r =>
          (r.player.play 10000000).toOption.bind fun q =>
            (q.perform sampleCues).toOption.map fun t =>
              (decide (∀ r ∈ m.representations m.currentPeriod, r.duration = 1250000000),
                m.totalSegments m.currentPeriod, r.lost.map Segment.number,
                t.player.report.completed)) =
      some (true, 2, [0], true) := by
    decide +kernel
  obtain ⟨m, hm, hvalue⟩ := Checked.exists_of_bind_toOption hvalue
  obtain ⟨made, hnew, hvalue⟩ := Checked.exists_of_bind_toOption hvalue
  obtain ⟨p, rfl, hmade⟩ := Checked.exists_of_bind_toOption hvalue
  obtain ⟨r, hearlier, hvalue⟩ := Checked.exists_of_bind_toOption hmade
  obtain ⟨q, hplay, hvalue⟩ := Checked.exists_of_bind_toOption hvalue
  obtain ⟨t, hrun, hvalues⟩ := Checked.exists_of_map_toOption hvalue
  simp only [Prod.mk.injEq, decide_eq_true_eq] at hvalues
  obtain ⟨hD, htotal, hlost, hcompleted⟩ := hvalues
  obtain ⟨count, hnumbers, hend⟩ := gapless_restarts hm hD hnew hearlier (.inl rfl) hplay hrun
  obtain ⟨hcount, hplayed⟩ := hend hcompleted
  rw [htotal] at hcount
  subst hcount
  exact ⟨m, p, r, q, t, hm, hD, hnew, hearlier, hlost, hplay, hrun, hcompleted, hnumbers, hplayed⟩

/-- The second of the two segments arrives, and there are two ticks. -/
def remainderCues : List Cue :=
  [.sent (fun _ => false),
    .network 20000000 0 (.reply ⟨⟨contentName "http://a/1", 0⟩, .data (Length.encode 0)⟩),
    .tick 2000000000, .tick 3000000000]

/-- A policy that counts does not ask again for what it has lost: playback is reported as complete
with the first of the two segments left out. -/
theorem lost_when_stopped :
    ∃ m p r q t, sampleManifest.normalize = .ok m ∧
      (∀ r ∈ m.representations m.currentPeriod, r.duration = 1250000000) ∧
      Player.ofSettings sampleSettings m 1 = .ok (.ok p) ∧
      p.attempts [sampleAttempt] = .ok r ∧
      r.player.play 10000000 = .ok q ∧ q.perform remainderCues = .ok t ∧
      t.player.report.completed = true ∧ m.totalSegments m.currentPeriod = 2 ∧
      r.numbers ++ t.numbers = [1] := by
  have hvalue : (sampleManifest.normalize.toOption.bind fun m =>
      (Player.ofSettings sampleSettings m 1).toOption.bind fun r => r.toOption.bind fun p =>
        (p.attempts [sampleAttempt]).toOption.bind fun r =>
          (r.player.play 10000000).toOption.bind fun q =>
            (q.perform remainderCues).toOption.map fun t =>
              (decide (∀ r ∈ m.representations m.currentPeriod, r.duration = 1250000000),
                t.player.report.completed, m.totalSegments m.currentPeriod,
                r.numbers ++ t.numbers)) =
      some (true, true, 2, [1]) := by
    decide +kernel
  obtain ⟨m, hm, hvalue⟩ := Checked.exists_of_bind_toOption hvalue
  obtain ⟨made, hnew, hvalue⟩ := Checked.exists_of_bind_toOption hvalue
  obtain ⟨p, rfl, hmade⟩ := Checked.exists_of_bind_toOption hvalue
  obtain ⟨r, hearlier, hvalue⟩ := Checked.exists_of_bind_toOption hmade
  obtain ⟨q, hplay, hvalue⟩ := Checked.exists_of_bind_toOption hvalue
  obtain ⟨t, hrun, hvalues⟩ := Checked.exists_of_map_toOption hvalue
  simp only [Prod.mk.injEq, decide_eq_true_eq] at hvalues
  obtain ⟨hD, hcompleted, htotal, hnumbers⟩ := hvalues
  exact ⟨m, p, r, q, t, hm, hD, hnew, hearlier, hplay, hrun, hcompleted, htotal, hnumbers⟩

end Player

end LayerCast
