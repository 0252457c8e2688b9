import LayerCast.Proofs.Playback.Changes

/-!
# `LayerCast.Proofs.Playback.Terms`: what stays the same about a player

A player never changes its settings, its content or the capacity of its buffer, and its policy keeps
its nature. These are the `Terms` on which it plays. Only the adoption of another policy changes
them, for every change leaves them (`Changes.terms`).
-/

set_option autoImplicit false

namespace LayerCast

/-- What a player never changes. -/
structure Terms where
  settings : PlayerSettings
  manifest : Manifest
  capacity : Nat
  nature : Nature

namespace Player

variable {p q : Player} {now : Nat}

/-- The terms on which a player plays. -/
def terms (p : Player) : Terms := ⟨p.settings, p.manifest, p.buffer.capacity, p.policy.nature⟩

/-- A player with another policy of the same nature plays on the same terms. -/
theorem terms_withPolicy {policy : Adaptation} (h : policy.nature = p.policy.nature) :
    ({ p with policy } : Player).terms = p.terms := by
  unfold terms
  rw [h]

/-! ### Taking in -/

/-- What arrives does not change the terms. -/
theorem terms_takeIn (p : Player) (now : Nat) (ds : List Delivery) :
    (p.takeIn now ds).terms = p.terms := by
  obtain ⟨buffer, holdings, notices, hcapacity, htaken⟩ := takeIn_form p now ds
  rw [htaken]
  unfold terms
  rw [hcapacity, Adaptation.nature_delivered]

/-- Nor does what is saved of a batch. -/
theorem terms_takeSalvage (p : Player) (now : Nat) (s : Salvage) :
    (p.takeSalvage now s).terms = p.terms := by
  unfold Player.takeSalvage
  split
  · rfl
  · exact (terms_takeIn _ now s.usable).trans
      (terms_withPolicy (Adaptation.nature_abandoned s.dropped p.policy))

/-! ### Changes -/

/-- **A change** leaves the terms. -/
theorem Change.terms (h : p.Change q) : q.terms = p.terms := by
  cases h with
  | noted | started | stopped | sent | turned | played => rfl
  | streamed now result =>
      cases result with
      | waits => rfl
      | nothing policy exhausted free more asked =>
          exact terms_withPolicy (Adaptation.nature_next asked)
      | requested policy first rest free more asked =>
          exact terms_withPolicy (Adaptation.nature_next asked)
  | @shed r failed => exact terms_withPolicy (Adaptation.nature_failed p.policy failed)
  | finished now => exact terms_takeIn _ now _
  | salvaged now => exact terms_takeSalvage _ now _

/-- Whatever happens to a player, the terms stay. -/
theorem Changes.terms (h : p.Changes q) : q.terms = p.terms := by
  induction h with
  | refl => rfl
  | tail _ hchange ih => exact hchange.terms.trans ih

/-- A new player plays on the terms of its settings. -/
theorem terms_ofSettings {settings : PlayerSettings} {m : Manifest} {faces : Nat}
    (hnew : Player.ofSettings settings m faces = .ok (.ok p)) :
    ∃ policy, Policy.build settings.policy m = .ok policy ∧
      p.terms = ⟨settings, m, settings.maxBuffer, (Adaptation.builtIn policy).nature⟩ := by
  obtain ⟨policy, pool, hpolicy, -, rfl⟩ := ofSettings_eq_ok hnew
  exact ⟨policy, hpolicy, rfl⟩

/-- Players on the same terms are layered or not together. -/
theorem isLayered_of_terms (h : q.terms = p.terms) : q.policy.isLayered = p.policy.isLayered :=
  Adaptation.isLayered_of_nature (congrArg Terms.nature h)

end Player

end LayerCast
