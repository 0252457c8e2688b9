import LayerCast.Proofs.Transfer.Deeds

/-!
# `LayerCast.Proofs.Transfer.Outcome`: what one wake does to a running transfer

The owner of a fetcher sees four things of it (`Fetcher.View`): the phase, the segment, the events
and the delivery. `Outcome v w` lists the ways in which they can change, and `handle_outcome` says
that one wake of a busy fetcher is one of them:

* the transfer goes on, and nothing is to be told;
* the transfer goes on, and the owner is told that it only drains;
* the transfer is given up, and the owner is told so;
* the transfer is finished, the delivery of its segment is there, and the owner is told so.

So one wake gives at most one event, and a fetcher that is not busy any more has told why. The view
is a part of the scene, so that this is read off what a wake comes to (`handle_comes`).
-/

set_option autoImplicit false

namespace LayerCast.Fetcher

/-- What the owner of a fetcher sees of it. -/
structure View where
  phase : FetchPhase
  events : List FetchEvent
  completed : Option Delivery
  segment : Option Segment

/-- The owner's view of a fetcher. -/
def view (f : Fetcher) : View :=
  { phase := f.phase, events := f.events, completed := f.completed, segment := f.segment? }

/-- How the owner's view of a transfer can change. -/
inductive Outcome (v : View) : View → Prop
  | running : Outcome v v
  | drained : Outcome v { v with events := v.events ++ [.soonFinished] }
  | rejected : Outcome v { v with phase := .aborted, events := v.events ++ [.rejected] }
  | finished (d : Delivery) (delivered : v.segment = some d.segment) :
      Outcome v { v with
        phase := .finished, events := v.events ++ [.finished], completed := some d }

/-! ### Outcomes of deeds -/

/-- The owner's view of a scene. -/
def Scene.view (s : Scene) : View :=
  { phase := s.phase
    events := s.events
    completed := s.completed
    segment := s.transfer.map (·.segment) }

/-- What follows from a deed is an outcome. -/
theorem Sequel.outcome {s s' : Scene} (h : Sequel s s') : Outcome s.view s'.view := by
  cases h with
  | same => exact .running
  | @drained t _ ht =>
      have hview : Scene.view { s with
          transfer := some { t with drained := true }
          events := s.events ++ [.soonFinished] } =
            { s.view with events := s.events ++ [.soonFinished] } := by
        simp [Scene.view, ht]
      rw [hview]
      exact .drained
  | finished _ ht _ hsegment => exact .finished _ (by simp [Scene.view, ht, hsegment])

/-- A deed with its sequel is an outcome. -/
theorem Deed.outcome {s mid s' : Scene} {t : Transfer} {gain : Option (Nat × ByteArray)}
    (hdeed : Deed s t gain mid) (hsequel : Sequel mid s') (ht : s.transfer = some t) :
    Outcome s.view s'.view := by
  obtain ⟨u, hu, hsegment, -, -, hcompleted, hcase⟩ := hdeed.open_or_rejected ht
  rcases hcase with ⟨hphase, hevents⟩ | ⟨hphase, hevents⟩
  · -- The deed goes unseen.
    have hview : mid.view = s.view := by
      simp [Scene.view, hphase, hevents, hcompleted, hu, ht, hsegment]
    exact hview ▸ hsequel.outcome
  · obtain rfl := hsequel.eq_of_phase (by simp [hphase])
    have hview : s'.view =
        { s.view with phase := .aborted, events := s.events ++ [.rejected] } := by
      simp [Scene.view, hphase, hevents, hcompleted, hu, ht, hsegment]
    rw [hview]
    exact .rejected

/-- Without a transfer, wakes go unseen. -/
theorem view_of_none {f g : Fetcher} (ht : f.transfer = none) {now : Nat} {w : Wake}
    (hg : f.handle now w = .ok g) : g.view = f.view := by
  cases w with
  | reply r =>
      have hsame : f.onReply now r = .ok f := by
        unfold onReply
        simp [ht]
      rw [Except.ok.inj (hg.symm.trans hsame)]
  | faceEnd =>
      obtain rfl := Except.ok.inj hg
      rfl
  | timer chunk =>
      obtain rfl := Except.ok.inj hg
      simp [onTimer, ht, view, segment?]
  | tick =>
      obtain rfl := Except.ok.inj hg
      simp [onTick, ht, view, segment?]

/-- **One wake of a running transfer**: it goes on with at most the news that it only drains, or
it ends with the news how. -/
theorem handle_outcome {f g : Fetcher} (hbusy : f.isBusy = true) {now : Nat} {w : Wake}
    (h : f.handle now w = .ok g) : Outcome f.view g.view := by
  have hphase : f.phase = .downloading := by simpa [isBusy] using hbusy
  cases ht : f.transfer with
  | none => exact view_of_none ht h ▸ .running
  | some t =>
      obtain ⟨mid, hdeed, hsequel⟩ := handle_comes hphase ht h
      exact hdeed.outcome hsequel ht

end LayerCast.Fetcher
