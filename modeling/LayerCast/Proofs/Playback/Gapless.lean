import LayerCast.Proofs.Playback.Course
import LayerCast.Proofs.Playback.Run

/-!
# `LayerCast.Proofs.Playback.Gapless`: gapless playback

A new player is on its course (`onCourse_ofSettings`), it stays there when playback is started
(`OnCourse.play`), and on every cue (`OnCourse.heed`), and so on any number of cues
(`OnCourse.perform`).

`gapless` says what that means for the segments that are played: over a whole run they are the
segments 0, 1, 2, … in this order, without a gap and without repetition, and playback that is
reported as complete has played all of the content and the time of all its segments.
-/

set_option autoImplicit false

namespace LayerCast.Player

variable {m : Manifest} {D spent first next : Nat} {p q : Player}

/-! ### Cues -/

/-- Carrying out what the pool has told plays nothing, and keeps a player on its course. -/
theorem OnCourse.hear (h : p.OnCourse m D spent first next) {r : Pool} (hr : r.Settled)
    {e : Option PoolEvent} (hturn : Pool.Turn p.pool e r) {now : Nat} {t : Ticked}
    (ht : ({ p with pool := r } : Player).hear now e = .ok t) : t.Continues m D spent first := by
  cases e with
  | none =>
      obtain rfl := Except.ok.inj ht
      exact ⟨0, next, rfl, h.turn hr hturn⟩
  | some e =>
      obtain ⟨q, hq, ht⟩ := Checked.bind_eq_ok_iff.mp ht
      obtain rfl := Except.ok.inj ht
      cases e with
      | batchComplete =>
          obtain ⟨next', hcourse⟩ := h.batchComplete hr hturn hq
          exact ⟨0, next', rfl, hcourse⟩
      | layersShed failed shed => exact ⟨0, next, rfl, h.layersShed hr hturn hq⟩

/-- Every cue keeps a player on its course. -/
theorem OnCourse.heed (h : p.OnCourse m D spent first next) {cue : Cue} {t : Ticked}
    (ht : p.heed cue = .ok t) : t.Continues m D spent first := by
  cases cue with
  | network now id w =>
      obtain ⟨⟨e, r⟩, hpoll, ht⟩ := Checked.bind_eq_ok_iff.mp ht
      obtain ⟨hr, hturn⟩ := Pool.poll_turn h.settled hpoll
      exact h.hear hr hturn ht
  | tick now =>
      rw [Player.heed] at ht
      rcases h.settled.events with hsilent | hnews
      · rw [Pool.announce_nil hsilent] at ht
        exact h.consume ht
      · -- The end of a batch is still to be told, and the tick waits.
        rw [Pool.announce_cons hnews] at ht
        have hr : ({ p.pool with events := [] } : Pool).Settled := ⟨h.settled.fetchers, .inl rfl⟩
        exact h.hear hr (.announced hnews) ht
  | sent closed =>
      obtain rfl := Except.ok.inj ht
      -- Handing interests over moves no layer and tells nothing.
      have hcontents := Pool.contents_afterSent p.pool closed
      refine ⟨0, next, rfl, ?_⟩
      refine ⟨?_, ?_, Pool.settled_afterSent h.settled closed, h.own.afterSent closed, ?_,
        h.downloaded⟩
      · show Course m D spent first next (p.pool.afterSent closed).contents _
        rw [hcontents]
        exact { h.course with }
      · show HasRoomFor m D (p.pool.afterSent closed).contents _
        rw [hcontents]
        exact h.room
      · intro hpending
        rw [hcontents]
        exact h.resting hpending

/-- Any number of cues keeps a player on its course. -/
theorem OnCourse.perform (cues : List Cue) (h : p.OnCourse m D spent first next) {t : Ticked}
    (ht : p.perform cues = .ok t) : t.Continues m D spent first := by
  induction cues generalizing p first next t with
  | nil =>
      obtain rfl := Except.ok.inj ht
      exact ⟨0, next, rfl, h⟩
  | cons cue rest ih =>
      obtain ⟨t₁, ht₁, hends | hgoesOn⟩ := perform_cons ht
      · obtain ⟨-, rfl⟩ := hends
        exact h.heed ht₁
      · obtain ⟨later, -, hlater, rfl⟩ := hgoesOn
        obtain ⟨count, between, hnumbers, hcourse⟩ := h.heed ht₁
        obtain ⟨count', next', hnumbers', hrest⟩ := ih hcourse hlater
        -- The numbers of the first cue come right before those of the others.
        refine ⟨count + count', next', ?_, ?_⟩
        · rw [hnumbers, hnumbers', List.range'_append_1]
        · rw [← Nat.add_assoc]
          exact hrest

/-! ### The start -/

/-- A new player has played nothing. -/
theorem onCourse_ofSettings {settings : PlayerSettings} {faces : Nat}
    (hnew : Player.ofSettings settings m faces = .ok (.ok p))
    (hm : m.Steady D p.policy.isLayered) : p.OnCourse m D 0 0 0 := by
  obtain ⟨policy, pool, hpolicy, hpool, rfl⟩ := ofSettings_eq_ok hnew
  obtain ⟨hsettled, hempty, hsilent⟩ := Pool.ofSettings_spec hpool
  have hbalance : 0 + 0 + 0 = 0 * D := (Nat.zero_mul D).symm
  refine Course.between ?_ hsettled hempty hsilent rfl
  exact {
    manifest := rfl
    queues := Holdings.Queues.empty
    whole := fun _ hu => nomatch hu
    once := List.nodup_nil
    balance := hbalance
    inside := Nat.zero_le _
    ended := fun hcompleted => nomatch hcompleted
    policy := ⟨policy, rfl, Policy.inStep_build hpolicy⟩
    steady := hm }

/-- Starting keeps a player on its course. -/
theorem OnCourse.play (h : p.OnCourse m D spent first next) {now : Nat}
    (hplay : p.play now = .ok q) : q.OnCourse m D spent first next := by
  unfold Player.play at hplay
  split at hplay
  · obtain rfl := Except.ok.inj hplay
    exact h
  · refine OnCourse.stream ?_ hplay
    exact { h with course := { h.course with }, downloaded := fun hall => nomatch hall }

/-- What a player can be built for is playable. -/
theorem playable_of_ofSettings {settings : PlayerSettings} {faces : Nat}
    (hnew : Player.ofSettings settings m faces = .ok (.ok p)) :
    m.representations m.currentPeriod ≠ [] := by
  obtain ⟨policy, -, hpolicy, -⟩ := ofSettings_eq_ok hnew
  exact List.ne_nil_of_length_pos (Policy.build_eq_ok_iff.mp hpolicy).1.1

/-- Content of which all segments take the same time is steady for every policy. -/
theorem steady_of_ofSettings {raw : Manifest} {settings : PlayerSettings} {faces : Nat}
    (hm : raw.normalize = .ok m) (hD : ∀ r ∈ m.representations m.currentPeriod, r.duration = D)
    (hnew : Player.ofSettings settings m faces = .ok (.ok p)) (layered : Bool) :
    m.Steady D layered := by
  have hplayable := playable_of_ofSettings hnew
  refine ⟨?_, hplayable, fun _ r hr _ => hD r (List.mem_of_getElem? hr)⟩
  obtain ⟨r, hr⟩ := List.exists_mem_of_ne_nil _ hplayable
  rw [← hD r hr]
  exact Manifest.duration_pos_of_normalize hm m.currentPeriod r hr

/-! ### The result -/

/-- **Playback is gapless.** A new player plays content of which all segments take `D` nanoseconds.
Whatever the network does, the segments that are played to their end are 0, 1, 2, … in this order.
If the report says that playback came to the end of the content, then all segments were played, and
the time of all of them. -/
theorem gapless {raw m : Manifest} {D : Nat} {settings : PlayerSettings} {faces start : Nat}
    {p q : Player} {cues : List Cue} {t : Ticked} (hm : raw.normalize = .ok m)
    (hD : ∀ r ∈ m.representations m.currentPeriod, r.duration = D)
    (hnew : Player.ofSettings settings m faces = .ok (.ok p)) (hplay : p.play start = .ok q)
    (hrun : q.perform cues = .ok t) :
    ∃ count, t.numbers = List.range count ∧
      (t.player.report.completed = true →
        count = m.totalSegments m.currentPeriod ∧ t.player.report.played = count * D) := by
  have hsteady := steady_of_ofSettings hm hD hnew p.policy.isLayered
  have hstart := (onCourse_ofSettings hnew hsteady).play hplay
  obtain ⟨count, next, hnumbers, hend⟩ := hstart.perform cues hrun
  refine ⟨count, hnumbers.trans List.range_eq_range'.symm, fun hcompleted => ?_⟩
  obtain ⟨hcount, hplayed⟩ := hend.all_played hcompleted
  simp only [Nat.zero_add] at hcount hplayed
  exact ⟨hcount, hplayed⟩

/-- Two segments of one and a quarter seconds. -/
def sampleManifest : Manifest :=
  { baseUrl := "http://a"
    periods := [⟨[{ id := "v", bandwidth := 1, segmentMillis := 1250, media := #["0", "1"] }]⟩] }

/-- A player with one fetcher that plays the lowest representation. -/
def sampleSettings : PlayerSettings := { poolSize := 1, policy := { kind := .alwaysLowest } }

/-- Both segments arrive, and there are three ticks of a second. The last of them finds less than a
second to play. -/
def sampleCues : List Cue :=
  [.sent (fun _ => false),
    .network 10 0 (.reply ⟨⟨contentName "http://a/0", 0⟩, .data (Length.encode 0)⟩),
    .sent (fun _ => false),
    .network 20 0 (.reply ⟨⟨contentName "http://a/1", 0⟩, .data (Length.encode 0)⟩),
    .tick 2000000000, .tick 3000000000, .tick 4000000000]

/-- The sample plays both segments to the end of the content. -/
theorem gapless_sample :
    ∃ m p q t, sampleManifest.normalize = .ok m ∧
      (∀ r ∈ m.representations m.currentPeriod, r.duration = 1250000000) ∧
      Player.ofSettings sampleSettings m 1 = .ok (.ok p) ∧ p.play 0 = .ok q ∧
      q.perform sampleCues = .ok t ∧ t.player.report.completed = true ∧
      t.numbers = [0, 1] ∧ t.player.report.played = 2500000000 := by
  have hvalue : (sampleManifest.normalize.toOption.bind fun m =>
      (Player.ofSettings sampleSettings m 1).toOption.bind fun r => r.toOption.bind fun p =>
        (p.play 0).toOption.bind fun q => (q.perform sampleCues).toOption.map fun t =>
          (decide (∀ r ∈ m.representations m.currentPeriod, r.duration = 1250000000),
            m.totalSegments m.currentPeriod, t.player.report.completed)) =
      some (true, 2, true) := by
    decide +kernel
  obtain ⟨m, hm, hvalue⟩ := Option.bind_eq_some_iff.mp hvalue
  obtain ⟨r, hr, hvalue⟩ := Option.bind_eq_some_iff.mp hvalue
  obtain ⟨p, hp, hvalue⟩ := Option.bind_eq_some_iff.mp hvalue
  obtain ⟨q, hq, hvalue⟩ := Option.bind_eq_some_iff.mp hvalue
  obtain ⟨t, ht, hvalues⟩ := Option.map_eq_some_iff.mp hvalue
  simp only [Prod.mk.injEq, decide_eq_true_eq] at hvalues
  obtain ⟨hD, htotal, hcompleted⟩ := hvalues
  have hm := Checked.eq_ok_of_toOption hm
  have hnew : Player.ofSettings sampleSettings m 1 = .ok (.ok p) := by
    rw [Checked.eq_ok_of_toOption hr, Checked.eq_ok_of_toOption hp]
  have hplay := Checked.eq_ok_of_toOption hq
  have hrun := Checked.eq_ok_of_toOption ht
  obtain ⟨count, hnumbers, hend⟩ := gapless hm hD hnew hplay hrun
  obtain ⟨hcount, hplayed⟩ := hend hcompleted
  rw [htotal] at hcount
  subst hcount
  exact ⟨m, p, q, t, hm, hD, hnew, hplay, hrun, hcompleted, hnumbers, hplayed⟩

end LayerCast.Player
