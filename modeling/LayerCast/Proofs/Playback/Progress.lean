import LayerCast.Proofs.Playback.Reserve
import LayerCast.Proofs.Playback.Restart
import LayerCast.Proofs.Policy.Depth

/-!
# `LayerCast.Proofs.Playback.Progress`: playback that does not get stuck

After a tick that does not end playback a batch is out, or all of the content was requested, or the
buffer covers another tick. Otherwise nothing could ever happen again: the player would stall on
every tick and request nothing.

`progress` proves this where two sizes fit together. There must be room for a segment of the lowest
level beside what is less than a tick, and the base layers that the layered policy wants must cover
a tick. Nothing checks that they do, and where they do not, playback gets stuck (`gets_stuck`).

Both conditions count in multiples of a unit `g` of time, of which ticks and segments are multiples
(`Player.InUnits`). So is what is in the buffer, which therefore is short of a tick by a whole unit
at least.
-/

set_option autoImplicit false

namespace LayerCast

namespace Player

variable {p q : Player} {now g : Nat}

/-! ### Multiples of a unit -/

/-- Ticks, segments and what is in the buffer are multiples of a unit. -/
structure InUnits (g : Nat) (p : Player) : Prop where
  tick : g ∣ p.settings.tick
  lengths : ∀ r ∈ p.manifest.representations p.manifest.currentPeriod, g ∣ r.duration
  filled : g ∣ p.buffer.filled

/-- What is short of a tick is short of it by a unit. -/
theorem InUnits.short (h : p.InUnits g) (hbehind : p.buffer.filled < p.settings.tick) :
    p.buffer.filled + g ≤ p.settings.tick := by
  have hle := Nat.le_of_dvd (Nat.sub_pos_of_lt hbehind) (Nat.dvd_sub h.tick h.filled)
  omega

/-- There is room for a segment beside what is short of a tick, if the two fit into the buffer. -/
theorem InUnits.hasRoom (h : p.InUnits g) (hbehind : p.buffer.filled < p.settings.tick)
    (hfits : p.nextDuration + p.settings.tick ≤ p.buffer.capacity + g) :
    p.buffer.hasRoom p.nextDuration = true := by
  have hshort := h.short hbehind
  refine decide_eq_true ?_
  omega

/-- A new player has an empty buffer. -/
theorem inUnits_ofSettings {settings : PlayerSettings} {m : Manifest} {faces : Nat}
    (hnew : Player.ofSettings settings m faces = .ok (.ok p)) (htick : g ∣ settings.tick)
    (hlengths : ∀ r ∈ m.representations m.currentPeriod, g ∣ r.duration) : p.InUnits g := by
  obtain ⟨policy, pool, -, -, rfl⟩ := ofSettings_eq_ok hnew
  exact ⟨htick, hlengths, Nat.dvd_zero g⟩

/-- What is credited is the time of one of the deliveries. -/
theorem duration_of_credits {ds : List Delivery} {u : Unplayed} (hu : u ∈ p.credits ds) :
    ∃ d ∈ ds, u.left = d.segment.duration := by
  cases ds with
  | nil => cases hu
  | cons first rest =>
      simp only [credits] at hu
      split at hu
      · obtain rfl := List.mem_singleton.mp hu
        exact ⟨first, List.mem_cons_self, rfl⟩
      · cases hu

/-- Taking in layers of the content keeps the buffer in units. -/
theorem InUnits.takes (h : p.InUnits g) (hsupplied : p.Supplied) {ds : List Delivery}
    (hds : ∀ d ∈ ds, d.segment ∈ p.pool.contents) {r : Stock}
    (htakes : p.stock.Takes (p.credits ds) r) : g ∣ r.buffer.filled := by
  have hunits : ∀ u ∈ p.credits ds, g ∣ u.left := by
    intro u hu
    obtain ⟨d, hd, hleft⟩ := duration_of_credits hu
    obtain ⟨-, -, -, r, hr, hduration⟩ :=
      Manifest.segment?_spec (hsupplied.ofContent d.segment (hds d hd))
    rw [hleft, hduration]
    exact h.lengths r (List.mem_of_getElem? hr)
  generalize p.credits ds = us at hunits htakes
  cases htakes with
  | nothing => exact h.filled
  | segment u room => exact Nat.dvd_add h.filled (hunits u List.mem_cons_self)

/-- **A change** keeps the buffer in units. -/
theorem Change.inUnits (hchange : p.Change q) (hsettled : p.pool.Settled) (hsupplied : p.Supplied)
    (h : p.InUnits g) : q.InUnits g := by
  have hterms := hchange.terms
  have hsettings : q.settings = p.settings := congrArg Terms.settings hterms
  have hmanifest : q.manifest = p.manifest := congrArg Terms.manifest hterms
  refine ⟨hsettings ▸ h.tick, hmanifest ▸ h.lengths, ?_⟩
  cases hchange with
  | noted | started | stopped | sent | turned | shed => exact h.filled
  | streamed now result => cases result <;> exact h.filled
  | @finished r now settled size turn =>
      exact h.takes hsupplied (Pool.mem_handover turn)
        (takeIn_takes { p with pool := r.takeFinished.2 } now r.takeFinished.1)
  | @salvaged r s now saved =>
      exact h.takes hsupplied (Pool.mem_usable hsettled saved)
        (takeSalvage_takes { p with pool := r } now s)
  | played time there whole =>
      refine Nat.dvd_sub h.filled ?_
      -- A tick is played whole, or all that is left.
      rcases whole with rfl | rfl
      · exact h.tick
      · exact h.filled

/-- Whatever happens, the buffer stays in units. -/
theorem Changes.inUnits (hchanges : p.Changes q) (hsettled : p.pool.Settled)
    (hsupplied : p.Supplied) (h : p.InUnits g) : q.InUnits g := by
  induction hchanges with
  | refl => exact h
  | tail hbefore hchange ih =>
      have hbetween := Changes.settled hbefore hsettled
      exact hchange.inUnits hbetween (Changes.supplied hbefore hsettled hsupplied) ih

/-! ### The end of a tick -/

/-- A tick that does not end playback ends with a look at what can be requested. -/
theorem streamed_of_consume {u : Ticked} (hu : p.consume now = .ok u) (hgoesOn : u.goesOn = true) :
    ∃ r : Player, r.playing = true ∧ Streamed r now u.player := by
  -- Both ways in which a tick goes on end with the same streaming.
  have hconsumed : ∀ {r : Player} {buffer : PlayoutBuffer} {t : Ticked}, r.playing = true →
      r.consumed now buffer = .ok t → ∃ r : Player, r.playing = true ∧ Streamed r now t.player := by
    intro r buffer t hplaying ht
    obtain ⟨q, hstream, ht⟩ := Checked.bind_eq_ok_iff.mp ht
    obtain rfl := Except.ok.inj ht
    refine ⟨_, ?_, stream_cases hstream⟩
    exact hplaying
  cases consume_cases hu with
  | stopped | ended | drained => cases hgoesOn
  | covered playing there ticked => exact hconsumed playing ticked
  | @underrun s r _ playing more short saved ticked =>
      have hplaying : (({ p with pool := r } : Player).takeSalvage now s).playing = true :=
        (takeSalvage_eq { p with pool := r } now s).2.2.trans playing
      unfold consumeOrStall at ticked
      split at ticked
      · exact hconsumed hplaying ticked
      · obtain ⟨q, hstall, ticked⟩ := Checked.bind_eq_ok_iff.mp ticked
        obtain rfl := Except.ok.inj ticked
        obtain ⟨stalls, notices, hstream⟩ := stream_of_stall hstall
        refine ⟨_, ?_, stream_cases hstream⟩
        exact hplaying

/-- A player that has room, and content that was not requested, requests nothing only if its policy
is layered and holds as many base layers as it wants. -/
theorem Streamed.wanted {r : Player} (h : Streamed r now p) (hplaying : r.playing = true)
    (hlevels : 0 < p.manifest.levels) (hbuiltIn : p.policy.nature.builtIn = true)
    (hrange : ∀ rule ∈ p.policy.nature.rule?, rule.InRange p.manifest) (hfree : p.pending = none)
    (hmore : p.allDownloaded = false) (hroom : p.buffer.hasRoom p.nextDuration = true) :
    ∃ l wanted, p.policy = .builtIn (.layered l) ∧
      l.desired 0 (Layered.highestInUse p.manifest p.holdings + 2) = .ok wanted ∧
        wanted ≤ p.holdings.count 0 := by
  cases h with
  | requested => cases hfree
  | waits full => exact absurd ((full hplaying hfree hmore).symm.trans hroom) Bool.false_ne_true
  | nothing policy exhausted free more asked answered =>
      obtain rfl : exhausted = false := hmore
      have hnature := Adaptation.nature_next asked
      exact Adaptation.deep_of_next_nil hlevels (hnature ▸ hbuiltIn) (hnature ▸ hrange) asked
        answered

/-! ### The depth of the base layer -/

/-- The base layers that a layered player holds are in the buffer, but for a part of the first one
that is short of it by at least a unit. -/
theorem OnCourse.depth {m : Manifest} {D spent first next : Nat}
    (h : p.OnCourse m D spent first next) (hlayered : p.policy.isLayered = true) (hunit : g ∣ D)
    (hfilled : g ∣ p.buffer.filled) (hsome : 0 < p.holdings.count 0) :
    p.holdings.count 0 * D + g ≤ p.buffer.filled + D := by
  have hcount : p.holdings.count 0 = next - first := by
    obtain ⟨policy, hpolicy, hstep⟩ := h.course.policy
    rw [hpolicy] at hlayered
    cases policy with
    | sequential s => cases hlayered
    | layered l => exact Holdings.HoldsBase.count hstep.1 h.course.once
  have hlength := congrArg List.length h.course.queues.numbers
  have hleft := h.course.queues.left
  have htime := h.course.queues.time
  have hwhole := h.course.whole
  rw [List.length_map, List.length_range', ← hcount] at hlength
  cases hplayout : p.holdings.playout with
  | nil =>
      rw [hplayout, List.length_nil] at hlength
      omega
  | cons u rest =>
      rw [hplayout] at hlength hleft htime hwhole
      rw [List.tail_cons] at hwhole
      have hrest : (rest.map Unplayed.left).sum = rest.length * D := by
        rw [List.map_eq_replicate_iff.mpr hwhole, List.sum_replicate_nat]
      rw [List.map_cons, List.sum_cons, hrest] at htime
      -- What is left of the first segment is a multiple of the unit too.
      have hfirst : g ∣ u.left := by
        rw [← htime] at hfilled
        exact (Nat.dvd_add_left (Nat.dvd_mul_left_of_dvd hunit _)).mp hfilled
      have hunits := Nat.le_of_dvd (hleft u List.mem_cons_self) hfirst
      rw [← hlength, List.length_cons, Nat.succ_mul]
      omega

/-- A layered player that holds the base layers that it wants has a tick in its buffer, if that many
of them cover a tick. -/
theorem OnCourse.covers {m : Manifest} {D spent first next tick wanted : Nat}
    (h : p.OnCourse m D spent first next) (hlayered : p.policy.isLayered = true) (hunit : g ∣ D)
    (hfilled : g ∣ p.buffer.filled) (hheld : wanted ≤ p.holdings.count 0)
    (hwanted : D + tick ≤ wanted * D + g) : tick ≤ p.buffer.filled := by
  have hle := Nat.mul_le_mul_right D hheld
  rcases Nat.eq_zero_or_pos (p.holdings.count 0) with hnone | hsome
  · -- Nothing is wanted, so that a tick takes no time.
    have hgD := Nat.le_of_dvd h.course.steady.positive hunit
    rw [hnone, Nat.zero_mul] at hle
    omega
  · have hdepth := h.depth hlayered hunit hfilled hsome
    omega

/-- The lowest level is steady. -/
theorem steady_of_layered {raw m : Manifest} {settings : PlayerSettings} {faces : Nat}
    (hm : raw.normalize = .ok m) (hnew : Player.ofSettings settings m faces = .ok (.ok p)) :
    m.Steady p.nextDuration true := by
  have hplayable := playable_of_ofSettings hnew
  obtain ⟨policy, pool, -, -, rfl⟩ := ofSettings_eq_ok hnew
  obtain ⟨r, others, hsome⟩ := List.exists_cons_of_ne_nil hplayable
  have hbase : (m.representations m.currentPeriod)[0]? = some r := by
    rw [hsome]
    rfl
  have hduration : m.segmentDuration? m.currentPeriod 0 = some r.duration := by
    rw [Manifest.segmentDuration?, hbase]
    rfl
  simp only [nextDuration, hduration, Option.getD_some]
  -- For a layered policy only the base layer has to keep its duration.
  refine ⟨?_, hplayable, fun level r' hr' hlevel => ?_⟩
  · exact Manifest.duration_pos_of_normalize hm m.currentPeriod r (List.mem_of_getElem? hbase)
  · obtain rfl := hlevel rfl
    rw [hbase] at hr'
    obtain rfl := Option.some.inj hr'
    rfl

/-! ### The result -/

/-- **Playback does not get stuck.** Take a player with a built-in policy, anywhere in its life, and
a tick that does not end playback. Ticks and all segments are multiples of a unit `g`. If a segment
of the lowest level and less than a tick fit into the buffer together, and if the base layers that a
layered policy wants cover a tick, then a batch is out, or all of the content was requested, or the
buffer covers another tick. -/
theorem progress {raw m : Manifest} {settings : PlayerSettings} {faces : Nat} {deeds : List Deed}
    {past : Past} {u : Ticked} (hm : raw.normalize = .ok m)
    (hnew : Player.ofSettings settings m faces = .ok (.ok p))
    (hkeeps : ∀ policy, Deed.adopt policy ∉ deeds) (hlive : p.live {} deeds = .ok (past, q))
    (hu : q.consume now = .ok u) (hgoesOn : u.goesOn = true) (htick : g ∣ settings.tick)
    (hlengths : ∀ r ∈ m.representations m.currentPeriod, g ∣ r.duration)
    (hroom : p.nextDuration + settings.tick ≤ settings.maxBuffer + g)
    (hdeep : ∀ l wanted, u.player.policy = .builtIn (.layered l) →
      l.desired 0 (Layered.highestInUse m u.player.holdings + 2) = .ok wanted →
      p.nextDuration + settings.tick ≤ wanted * p.nextDuration + g) :
    u.player.pending.isSome = true ∨ u.player.allDownloaded = true ∨
      settings.tick ≤ u.player.buffer.filled := by
  by_contra hstuck
  simp only [not_or, Bool.not_eq_true, Option.isSome_eq_false_iff, Option.isNone_iff_eq_none,
    Nat.not_le] at hstuck
  obtain ⟨hfree, hmore, hbehind⟩ := hstuck
  have hsettled := (oneBatch_ofSettings hnew).settled
  have hchanges := (changes_live deeds hsettled hkeeps hlive).trans (changes_consume hu)
  have hsteady := steady_of_layered hm hnew
  obtain ⟨policy, hpolicy, hbegins⟩ := terms_ofSettings hnew
  obtain ⟨hsettings, hmanifest, hcapacity, hnature⟩ :=
    Terms.mk.inj (hchanges.terms.trans hbegins)
  have hunits : u.player.InUnits g :=
    hchanges.inUnits hsettled (supplied_ofSettings hnew) (inUnits_ofSettings hnew htick hlengths)
  -- There is room beside what is less than a tick, so the player does not wait.
  have hspace : u.player.buffer.hasRoom u.player.nextDuration = true := by
    refine hunits.hasRoom (hsettings ▸ hbehind) ?_
    rw [nextDuration_of_terms hchanges.terms, hsettings, hcapacity]
    exact hroom
  obtain ⟨r, hplaying, hstreamed⟩ := streamed_of_consume hu hgoesOn
  obtain ⟨l, wanted, hl, hwanted, hheld⟩ := hstreamed.wanted hplaying
    (hmanifest ▸ List.length_pos_of_ne_nil hsteady.playable)
    (hnature ▸ by cases policy <;> rfl)
    (hnature ▸ hmanifest ▸ (Policy.nature_build hpolicy).2.1) hfree hmore hspace
  rw [hmanifest] at hwanted
  -- The policy is layered, and the base layers that it wants are there and cover a tick.
  have hislayered : u.player.policy.isLayered = true := by
    rw [hl]
    rfl
  have hlayered : p.policy.isLayered = true :=
    (isLayered_of_terms hchanges.terms).symm.trans hislayered
  have hstart := onCourse_ofSettings hnew (hlayered ▸ hsteady)
  obtain ⟨spent, first, next, hcourse⟩ := hstart.live deeds hlayered hkeeps hlive
  obtain ⟨count, next', -, hend⟩ := hcourse.consume hu
  have hunit : g ∣ p.nextDuration := by
    obtain ⟨r, hr, hduration⟩ := hsteady.exists_base
    rw [← hduration]
    exact hlengths r (List.mem_of_getElem? hr)
  have hcovers := hend.covers hislayered hunit hunits.filled hheld (hdeep l wanted hl hwanted)
  exact absurd hbehind (Nat.not_lt.mpr hcovers)

/-- A buffer that is just large enough: what is short of a tick by a quarter of a second leaves room
for a segment of one and a quarter seconds. -/
def tightSettings : PlayerSettings := { layeredSettings with maxBufferMillis := 2000 }

/-- The first segment of the sample arrives, and there is no room for the second one. The tick makes
room, and the second segment is requested. -/
theorem progress_sample :
    ∃ m p past q u, sampleManifest.normalize = .ok m ∧
      Player.ofSettings tightSettings m 1 = .ok (.ok p) ∧
      p.live {} (openingDeeds ++ [.cue (replyCue 10 "http://a/0")]) = .ok (past, q) ∧
      q.pending = none ∧ q.consume 2000000000 = .ok u ∧ u.goesOn = true ∧
      u.player.buffer.filled = 250000000 ∧ u.player.allDownloaded = false ∧
      u.player.pending.isSome = true := by
  have hvalue : (sampleManifest.normalize.toOption.bind fun m =>
      (Player.ofSettings tightSettings m 1).toOption.bind fun r => r.toOption.bind fun p =>
        (p.live {} (openingDeeds ++ [.cue (replyCue 10 "http://a/0")])).toOption.bind fun r =>
          (r.2.consume 2000000000).toOption.map fun u =>
            (decide (∀ r ∈ m.representations m.currentPeriod, 250000000 ∣ r.duration),
              [p.nextDuration, u.player.buffer.filled], r.2.pending,
              [u.goesOn, u.player.allDownloaded],
              match u.player.policy with
              | .builtIn (.layered l) =>
                (l.desired 0 (Layered.highestInUse m u.player.holdings + 2)).toOption
              | _ => none)) =
      some (true, [1250000000, 250000000], none, [true, false], some 9) := by
    decide +kernel
  obtain ⟨m, hm, hvalue⟩ := Checked.exists_of_bind_toOption hvalue
  obtain ⟨made, hnew, hvalue⟩ := Checked.exists_of_bind_toOption hvalue
  obtain ⟨p, rfl, hmade⟩ := Checked.exists_of_bind_toOption hvalue
  obtain ⟨⟨past, q⟩, hlive, hvalue⟩ := Checked.exists_of_bind_toOption hmade
  obtain ⟨u, hu, hvalues⟩ := Checked.exists_of_map_toOption hvalue
  simp only [Prod.mk.injEq, decide_eq_true_eq, List.cons.injEq] at hvalues
  obtain ⟨hlengths, ⟨hduration, hfilled, -⟩, hfree, ⟨hgoesOn, hmore, -⟩, hwants⟩ := hvalues
  have hroom : p.nextDuration + tightSettings.tick ≤ tightSettings.maxBuffer + 250000000 := by
    rw [hduration]
    decide
  have hdeep : ∀ l wanted, u.player.policy = .builtIn (.layered l) →
      l.desired 0 (Layered.highestInUse m u.player.holdings + 2) = .ok wanted →
      p.nextDuration + tightSettings.tick ≤ wanted * p.nextDuration + 250000000 := by
    intro l wanted hl hwanted
    simp only [hl, hwanted] at hwants
    obtain rfl := Option.some.inj hwants
    rw [hduration]
    decide
  have hgoes := progress hm hnew (by simp [openingDeeds]) hlive hu hgoesOn (by decide) hlengths
    hroom hdeep
  rw [hmore, hfilled] at hgoes
  refine ⟨m, p, past, q, u, hm, hnew, hlive, hfree, hu, hgoesOn, hfilled, hmore, ?_⟩
  rcases hgoes with hout | hall | hcovered
  · exact hout
  · cases hall
  · exact absurd hcovered (by decide)

/-! ### Sizes that do not fit together -/

/-- After these deeds a tick goes on with nothing out, content that was not requested, and less than
a tick in the buffer. -/
def GetsStuck (raw : Manifest) (settings : PlayerSettings) (deeds : List Deed) (now : Nat) : Prop :=
  ∃ m p past q u, raw.normalize = .ok m ∧ Player.ofSettings settings m 1 = .ok (.ok p) ∧
    (∀ policy, Deed.adopt policy ∉ deeds) ∧ p.live {} deeds = .ok (past, q) ∧
    q.consume now = .ok u ∧ u.goesOn = true ∧ u.player.playing = true ∧ u.player.pending = none ∧
    u.player.allDownloaded = false ∧ u.player.buffer.filled < settings.tick

/-- Whether a player gets stuck can be computed. -/
theorem getsStuck_of_value {raw : Manifest} {settings : PlayerSettings} {deeds : List Deed}
    (hkeeps : ∀ policy, Deed.adopt policy ∉ deeds)
    (hvalue : (raw.normalize.toOption.bind fun m =>
      (Player.ofSettings settings m 1).toOption.bind fun r => r.toOption.bind fun p =>
        (p.live {} deeds).toOption.bind fun r => (r.2.consume now).toOption.map fun u =>
          (u.goesOn, u.player.playing, u.player.pending, u.player.allDownloaded,
            decide (u.player.buffer.filled < settings.tick))) =
      some (true, true, none, false, true)) : GetsStuck raw settings deeds now := by
  obtain ⟨m, hm, hvalue⟩ := Checked.exists_of_bind_toOption hvalue
  obtain ⟨made, hnew, hvalue⟩ := Checked.exists_of_bind_toOption hvalue
  obtain ⟨p, rfl, hmade⟩ := Checked.exists_of_bind_toOption hvalue
  obtain ⟨⟨past, q⟩, hlive, hvalue⟩ := Checked.exists_of_bind_toOption hmade
  obtain ⟨u, hu, hvalues⟩ := Checked.exists_of_map_toOption hvalue
  simp only [Prod.mk.injEq, decide_eq_true_eq] at hvalues
  obtain ⟨hgoesOn, hplaying, hfree, hmore, hbehind⟩ := hvalues
  exact ⟨m, p, past, q, u, hm, hnew, hkeeps, hlive, hu, hgoesOn, hplaying, hfree, hmore,
    hbehind⟩

/-- Content of so many segments of one length, on one level. -/
def plainManifest (segments millis : Nat) : Manifest :=
  { baseUrl := "http://a"
    periods := [⟨[{
      id := "v", bandwidth := 1, segmentMillis := millis, media := .replicate segments "s" }]⟩] }

/-- A buffer of three seconds, and ticks of two and a half. -/
def crampedSettings : PlayerSettings :=
  { sampleSettings with maxBufferMillis := 3000, tickMillis := 2500 }

/-- So many segments arrive. -/
def arrivingDeeds (segments : Nat) : List Deed :=
  .play 0 :: (List.range segments).flatMap fun n =>
    [.cue (.sent fun _ => false), .cue (replyCue (n + 1) "http://a/s")]

/-- Playback gets stuck where the two sizes do not fit together. In a buffer of three seconds a
segment of two seconds does not cover a tick of two and a half, and leaves no room for another one.
And the nine base layers that the layered policy wants, of a tenth of a second each, do not cover a
tick of one second. -/
theorem gets_stuck :
    GetsStuck (plainManifest 3 2000) crampedSettings (arrivingDeeds 1) 2000000000 ∧
      GetsStuck (plainManifest 12 100) { poolSize := 1 } (arrivingDeeds 9) 2000000000 :=
  ⟨getsStuck_of_value (by simp [arrivingDeeds]) (by decide +kernel),
    getsStuck_of_value (by simp [arrivingDeeds]) (by decide +kernel)⟩

end Player

end LayerCast
