import LayerCast.Proofs.Content.Addressing
import LayerCast.Proofs.Playback.Fresh
import LayerCast.Proofs.Policy.Slope
import LayerCast.Proofs.Transfer.Window

/-!
# `LayerCast.Proofs.Playback.Decisions`: sums that do not overflow

Settings that do not contradict themselves may still be beyond the numbers of the machine. A window
is made from the number of bits in a packet, which is a word exactly if the bytes are fewer than an
eighth of all words (`Window.exists_ofSettings_iff`). A player is made of accepted settings and
accepted content exactly if its windows are (`Player.exists_ofSettings_iff`).

`Player.Decisive` is the invariant behind the decisions of the layered policy. Its slope stays
within the limit of the settings, and no number that is held or played lies beyond the content.
Every change keeps both (`Player.Change.decisive`).

`Player.decisions_complete` puts the two parts together. That the settings are accepted is not
enough for either of them: with a large payload no player is made, and with a steep slope the first
decision of the growing phase overflows (`Player.accepted_settings_overflow`).
-/

set_option autoImplicit false

namespace LayerCast

/-! ### Making a player -/

/-- The fault that prevented a result. -/
def Checked.fault? {α : Type} : Checked α → Option Fault
  | .ok _ => none
  | .error f => some f

/-- A fault that is there is the result. -/
theorem Checked.eq_error_of_fault? {α : Type} {x : Checked α} {f : Fault}
    (h : x.fault? = some f) : x = .error f := by
  cases x with
  | ok a => cases h
  | error e => exact congrArg Except.error (Option.some.inj h)

/-- Results for all elements of a list make up a list of results. -/
theorem Checked.exists_mapM {α β : Type} {g : α → Checked β} {l : List α}
    (h : ∀ a ∈ l, ∃ b, g a = .ok b) : ∃ results, l.mapM g = .ok results := by
  induction l with
  | nil => exact ⟨[], rfl⟩
  | cons a rest ih =>
      obtain ⟨hfirst, hrest⟩ := List.forall_mem_cons.mp h
      rw [List.mapM_cons]
      apply Checked.exists_bind hfirst
      intro first _
      exact Checked.exists_bind (ih hrest) fun results _ => ⟨_, rfl⟩

/-- Settings that are accepted have fetchers and payload, and their slope does not start beyond its
limit. -/
theorem PlayerSettings.sound_of_validate {s : PlayerSettings} (h : s.validate = .ok s) :
    0 < s.poolSize ∧ 0 < s.fetch.chunkPayload ∧ ¬s.policy.alphaLimit < s.policy.alpha := by
  have hsound := (validate_eq_ok_iff.mp h).1
  unfold defect? at hsound
  split_ifs at hsound with _ _ hpool hpayload _ _ hlimit
  exact ⟨Nat.pos_of_ne_zero hpool, Nat.pos_of_ne_zero hpayload, hlimit⟩

/-- Content that was accepted has something to play. -/
theorem Manifest.Accepted.playable {raw m : Manifest} (h : Accepted raw m) :
    0 < m.levels ∧ 0 < m.currentTotal := by
  obtain ⟨⟨-, -, -, hcurrent⟩, -, -, -, hperiods⟩ := addressing_total h
  exact ⟨levels_pos_of_normalize h.normalize, (hperiods m.currentPeriod hcurrent).1⟩

/-- The fetchers of a pool have the same window. -/
theorem Pool.exists_ofSettings_iff {count : Nat} {settings : FetchSettings} (hcount : 0 < count) :
    (∃ p, Pool.ofSettings count settings = .ok (.ok p)) ↔
      ∃ w, Window.ofSettings settings.window settings.chunkPayload = .ok w := by
  have hsome : count ≠ 0 := by omega
  unfold Pool.ofSettings
  rw [if_neg hsome]
  constructor
  · rintro ⟨p, hp⟩
    obtain ⟨fetchers, hfetchers, -⟩ := Checked.bind_eq_ok_iff.mp hp
    obtain ⟨hlength, hmade⟩ := Checked.mapM_eq_ok hfetchers
    rw [List.length_range] at hlength
    -- All fetchers are made with the same settings, so that one of them tells of all.
    obtain ⟨f, hf⟩ := List.exists_mem_of_length_pos (hlength ▸ hcount)
    obtain ⟨id, -, hid⟩ := hmade f hf
    obtain ⟨w, hw, -⟩ := Checked.bind_eq_ok_iff.mp hid
    exact ⟨w, hw⟩
  · rintro ⟨w, hw⟩
    have hmade : ∀ id ∈ List.range count, ∃ f, Fetcher.ofSettings id settings = .ok f :=
      fun id _ => ⟨_, Checked.bind_eq_ok_iff.mpr ⟨w, hw, rfl⟩⟩
    obtain ⟨fetchers, hfetchers⟩ := Checked.exists_mapM hmade
    exact ⟨_, Checked.bind_eq_ok_iff.mpr ⟨fetchers, hfetchers, rfl⟩⟩

/-- **A player is made** of settings that do not contradict themselves and of content exactly if the
windows of its fetchers are. -/
theorem Player.exists_ofSettings_iff {s : PlayerSettings} {m : Manifest}
    (hsettings : s.validate = .ok s) (hlevels : 0 < m.levels) (htotal : 0 < m.currentTotal) :
    (∃ p, Player.ofSettings s m s.poolSize = .ok (.ok p)) ↔
      ∃ w, Window.ofSettings s.fetch.window s.fetch.chunkPayload = .ok w := by
  obtain ⟨hpool, -, -⟩ := PlayerSettings.sound_of_validate hsettings
  have hpolicy : Policy.build s.policy m = .ok (Policy.ofSettings s.policy m) :=
    Policy.build_eq_ok_iff.mpr ⟨⟨hlevels, htotal⟩, rfl⟩
  rw [← Pool.exists_ofSettings_iff hpool]
  constructor
  · rintro ⟨p, hp⟩
    obtain ⟨policy, pool, -, hmade, -⟩ := ofSettings_eq_ok hp
    exact ⟨pool, hmade⟩
  · rintro ⟨pool, hmade⟩
    unfold Player.ofSettings
    simp only [hsettings, hpolicy, hmade, ne_eq, not_true_eq_false, if_false]
    exact ⟨_, rfl⟩

/-! ### The slope of a player -/

namespace Adaptation

variable {a : Adaptation} {s : PolicySettings}

/-- A layered policy of these settings whose slope is within their limit. -/
def Bounded (a : Adaptation) (s : PolicySettings) : Prop :=
  ∃ l : Layered, a = .builtIn (.layered l) ∧ l.Bounded s

/-- No call of a policy takes the slope beyond the limit. -/
theorem kept_bounded (s : PolicySettings) : Kept fun a => a.Bounded s where
  next := by
    rintro a a' m b h batch hnext ⟨l, rfl, hl⟩
    obtain ⟨p', rfl, hanswer⟩ := next_builtIn hnext
    cases Policy.next_cases hanswer with
    | layered decided => exact ⟨l, rfl, hl⟩
  delivered := by
    rintro a rate ⟨l, rfl, hl⟩
    exact ⟨l.delivered, rfl, hl.delivered⟩
  failed := by
    rintro a segment ⟨l, rfl, hl⟩
    exact ⟨l.failed, rfl, hl.failed⟩
  abandoned := by
    rintro a segment ⟨l, rfl, hl⟩
    exact ⟨l, rfl, hl⟩

/-- What a layered policy decides on has a result if its slope fits the content. -/
theorem Bounded.exists_next (ha : a.Bounded s) {m : Manifest} {b : PlayoutBuffer} {h : Holdings}
    (hfits : s.Fits m) (hsome : 0 < m.levels) (hwithin : h.Within m.currentTotal) :
    ∃ batch policy, a.next m b h = .ok (batch, policy) := by
  obtain ⟨l, rfl, hl⟩ := ha
  obtain ⟨batch, hbatch⟩ := hl.exists_next hfits hsome hwithin
  have hanswer : Policy.next (.layered l) m b h = .ok (batch, .layered l) :=
    Checked.bind_eq_ok_iff.mpr ⟨batch, hbatch, rfl⟩
  exact ⟨batch, _, Checked.bind_eq_ok_iff.mpr ⟨_, hanswer, rfl⟩⟩

end Adaptation

namespace Player

variable {p q : Player}

/-! ### The numbers of a player -/

/-- A player of a layered policy whose slope is within the limit. Nothing that is held, queued for
playout or in the pool lies beyond the content. -/
structure Decisive (p : Player) : Prop where
  settled : p.pool.Settled
  supplied : p.Supplied
  bounded : p.policy.Bounded p.settings.policy
  below : p.holdings.Below p.manifest.currentTotal

/-- What is in the pool does not lie beyond the content. -/
theorem Supplied.lt_currentTotal (h : p.Supplied) :
    ∀ s ∈ p.pool.contents, s.number < p.manifest.currentTotal := fun s hs =>
  (Manifest.segment?_spec (h.ofContent s hs)).2.2.1

/-- **A change** leads to nothing beyond the content. -/
theorem Change.below (hchange : p.Change q) (h : p.Decisive) :
    q.holdings.Below p.manifest.currentTotal := by
  have hpool := h.supplied.lt_currentTotal
  -- Numbers come in with deliveries alone, and these were in the pool.
  cases hchange with
  | noted | started | stopped | sent | turned | shed => exact h.below
  | streamed now result =>
      cases result with
      | waits | nothing | requested => exact h.below
  | @finished r now settled size turn =>
      have htakes := takesIn_takeIn { p with pool := r.takeFinished.2 } now r.takeFinished.1
      apply htakes.below _ h.below
      intro d hd
      exact hpool d.segment (Pool.mem_handover turn d hd)
  | @salvaged r s now saved =>
      have htakes := takesIn_takeSalvage { p with pool := r } now s
      apply htakes.below _ h.below
      intro d hd
      exact hpool d.segment (Pool.mem_usable h.settled saved d hd)
  | played time => exact h.below.advance time

/-- **A change** keeps what decisions need. -/
theorem Change.decisive (hchange : p.Change q) (h : p.Decisive) : q.Decisive := by
  have hsettings : q.settings = p.settings := congrArg Terms.settings hchange.terms
  have hmanifest : q.manifest = p.manifest := congrArg Terms.manifest hchange.terms
  refine ⟨hchange.settled h.settled, hchange.supplied h.settled h.supplied, ?_, ?_⟩
  · rw [hsettings]
    exact hchange.policy (Adaptation.kept_bounded _) h.bounded
  · rw [hmanifest]
    exact hchange.below h

/-- So does any number of changes. -/
theorem Changes.decisive (hchanges : p.Changes q) (h : p.Decisive) : q.Decisive := by
  induction hchanges with
  | refl => exact h
  | tail _ hchange ih => exact hchange.decisive ih

/-- A new player of a layered policy. -/
theorem decisive_ofSettings {settings : PlayerSettings} {m : Manifest} {faces : Nat}
    (hnew : Player.ofSettings settings m faces = .ok (.ok p))
    (hsettings : settings.validate = .ok settings) (hkind : settings.policy.kind = .layered)
    (hlimit : settings.policy.alphaLimit.isNaN = false) : p.Decisive := by
  obtain ⟨-, -, hstart⟩ := PlayerSettings.sound_of_validate hsettings
  have hsupplied := supplied_ofSettings hnew
  obtain ⟨policy, pool, hpolicy, hpool, rfl⟩ := ofSettings_eq_ok hnew
  refine ⟨(Pool.ofSettings_spec hpool).1, hsupplied, ?_, Holdings.below_empty _⟩
  obtain ⟨-, rfl⟩ := Policy.build_eq_ok_iff.mp hpolicy
  refine ⟨.ofSettings settings.policy, ?_, Layered.bounded_ofSettings hlimit hstart⟩
  simp only [Policy.ofSettings, hkind]

/-- **Accepted settings do not overflow where they fit the machine.** A player is made of settings
and content that were accepted exactly if a packet has fewer bytes than an eighth of all words. The
settings of the layered policy may fit the content: the numbers of both are within the bounds of the
machine, and what the base layer wants below a top beyond all levels is a word, even at the limit of
the slope. Then whatever has happened to the player and whatever happens next, the policy always
comes to a decision. -/
theorem decisions_complete {raw m : Manifest} {settings : PlayerSettings}
    (hcontent : Manifest.Accepted raw m) (hsettings : settings.validate = .ok settings) :
    ((∃ p, Player.ofSettings settings m settings.poolSize = .ok (.ok p)) ↔
      settings.fetch.chunkPayload + settings.fetch.window.packetOverhead < word64 / 8) ∧
    (settings.policy.kind = .layered → settings.policy.Fits m →
      ∀ p, Player.ofSettings settings m settings.poolSize = .ok (.ok p) →
      ∀ deeds past q, (∀ policy, Deed.adopt policy ∉ deeds) →
      p.live {} deeds = .ok (past, q) → ∀ r, q.Changes r →
      ∃ batch policy, r.policy.next r.manifest r.buffer r.holdings = .ok (batch, policy)) := by
  obtain ⟨hlevels, htotal⟩ := hcontent.playable
  constructor
  · obtain ⟨-, hpayload, -⟩ := PlayerSettings.sound_of_validate hsettings
    rw [exists_ofSettings_iff hsettings hlevels htotal, Window.exists_ofSettings_iff hpayload]
  · intro hkind hfits p hnew deeds past q hkeeps hlive r hr
    have hstart := decisive_ofSettings hnew hsettings hkind hfits.limit
    have hchanges := (changes_live deeds hstart.settled hkeeps hlive).trans hr
    have hdecisive := hchanges.decisive hstart
    -- The settings and the content are those of the start.
    obtain ⟨built, -, hterms⟩ := terms_ofSettings hnew
    have hsame := hchanges.terms.trans hterms
    have hsettings' : r.settings = settings := congrArg Terms.settings hsame
    have hmanifest : r.manifest = m := congrArg Terms.manifest hsame
    have hbounded := hdecisive.bounded
    have hbelow := hdecisive.below
    rw [hsettings'] at hbounded
    rw [hmanifest] at hbelow ⊢
    exact hbounded.exists_next hfits hlevels hbelow.toWithin

/-- One fetcher, chunks of so many bytes, and a slope that starts at its limit. -/
def slopeSettings (payload : Nat) (slope : Float) : PlayerSettings :=
  { poolSize := 1, fetch := { chunkPayload := payload }
    policy := { alpha := slope, alphaLimit := slope } }

/-- The manifest of two layers is accepted as it is. -/
theorem accepted_twoLayers : Manifest.Accepted twoLayers twoLayers :=
  .periods rfl (Checked.eq_ok_of_toOption (by decide +kernel))

/-- A player of two layers comes to a decision after the base layer has arrived. -/
theorem decisions_complete_sample :
    ∃ p past q batch policy, Player.ofSettings (slopeSettings 4096 3) twoLayers 1 = .ok (.ok p) ∧
      p.live {} twoLayerDeeds = .ok (past, q) ∧
      q.policy.next q.manifest q.buffer q.holdings = .ok (batch, policy) := by
  have hsettings : (slopeSettings 4096 3).validate = .ok (slopeSettings 4096 3) :=
    PlayerSettings.validate_eq_ok_iff.mpr ⟨by decide +kernel, rfl⟩
  obtain ⟨hmade, hdecides⟩ := decisions_complete accepted_twoLayers hsettings
  obtain ⟨p, hnew⟩ := hmade.mpr (by decide)
  have hfits : (slopeSettings 4096 3).policy.Fits twoLayers :=
    ⟨by decide, by decide, by decide, by decide +kernel, by decide +kernel⟩
  have hvalue : ((Player.ofSettings (slopeSettings 4096 3) twoLayers 1).toOption.bind fun r =>
      r.toOption.map fun p => (p.live {} twoLayerDeeds).toOption.isSome) = some true := by
    decide +kernel
  obtain ⟨made, hmade, hvalue⟩ := Checked.exists_of_bind_toOption hvalue
  obtain rfl := Except.ok.inj (hnew.symm.trans hmade)
  obtain ⟨⟨past, q⟩, hlive⟩ := Option.isSome_iff_exists.mp (Option.some.inj hvalue)
  have hlive := Checked.eq_ok_of_toOption hlive
  have hkeeps : ∀ policy, Deed.adopt policy ∉ twoLayerDeeds := by
    simp [twoLayerDeeds, openingDeeds]
  obtain ⟨batch, policy, hnext⟩ :=
    hdecides rfl hfits p hnew twoLayerDeeds past q hkeeps hlive q .refl
  exact ⟨p, past, q, batch, policy, hnew, hlive, hnext⟩

/-- **That the settings are accepted is not enough.** No player is made for chunks of so many bytes
that the bits of a packet are no word. With a slope beyond all words the player fails when the base
layer arrives, as it looks whether there is anything to ask for in the growing phase. -/
theorem accepted_settings_overflow :
    ((slopeSettings (word64 / 8) 3).validate = .ok (slopeSettings (word64 / 8) 3) ∧
      Player.ofSettings (slopeSettings (word64 / 8) 3) twoLayers 1 = .error .mulOverflow) ∧
    (slopeSettings 4096 1e300).validate = .ok (slopeSettings 4096 1e300) ∧
      ∃ p past q, Player.ofSettings (slopeSettings 4096 1e300) twoLayers 1 = .ok (.ok p) ∧
        p.live {} openingDeeds = .ok (past, q) ∧
        q.heed (replyCue 10 "http://a/0") = .error .addOverflow := by
  refine ⟨⟨PlayerSettings.validate_eq_ok_iff.mpr ⟨by decide +kernel, rfl⟩,
    Checked.eq_error_of_fault? (by decide +kernel)⟩,
    PlayerSettings.validate_eq_ok_iff.mpr ⟨by decide +kernel, rfl⟩, ?_⟩
  have hvalue : ((Player.ofSettings (slopeSettings 4096 1e300) twoLayers 1).toOption.bind fun r =>
      r.toOption.bind fun p => (p.live {} openingDeeds).toOption.map fun r =>
        (r.2.heed (replyCue 10 "http://a/0")).fault?) = some (some .addOverflow) := by
    decide +kernel
  obtain ⟨made, hnew, hvalue⟩ := Checked.exists_of_bind_toOption hvalue
  obtain ⟨p, rfl, hvalue⟩ := Checked.exists_of_bind_toOption hvalue
  obtain ⟨⟨past, q⟩, hlive, hfault⟩ := Checked.exists_of_map_toOption hvalue
  exact ⟨p, past, q, hnew, hlive, Checked.eq_error_of_fault? hfault⟩

end Player

end LayerCast
