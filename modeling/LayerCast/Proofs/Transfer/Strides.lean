import LayerCast.Proofs.Transfer.Diary
import LayerCast.Proofs.Transfer.Pace
import LayerCast.Proofs.Transfer.RoundTrip

/-!
# `LayerCast.Proofs.Transfer.Strides`: what calls do to the pace of a fetcher

Wakes are beats (`Fetcher.handle_beat`). What an owner does besides has an effect on the pace of a
fetcher as well: a transfer starts with a request and a window, a reset forgets the requests that
are out, and windows are handed over. `perform_stride` says for every call what it does, so that
proofs about lives do not open the calls again.

Two consequences are about estimates. What happens to the estimate of a fetcher is a history of
steps (`HasHistory.stride`), so that whatever is known of histories holds of fetchers. And after
calls with which nothing fails, no timeout is too long (`Workable.timeout_lt`).
-/

set_option autoImplicit false

namespace LayerCast.Fetcher

section
variable {s : FetchSettings} {f g : Fetcher}

/-- What one call does to the pace of a fetcher, after which so many requests are out. -/
inductive Stride (f : Fetcher) (load : Nat) : Call → Pace → Prop
  /-- Neither a request nor a reply nor a window is concerned. -/
  | nothing {call : Call} : Stride f load call f.pace
  /-- A transfer is started. Requests of earlier transfers are forgotten. -/
  | started {now : Nat} {segment : Segment} {p : Pace} (hidle : f.phase ≠ .downloading)
      (hasks : Asks { f.pace with
        roundTrip := f.roundTrip.forget
        window := some (f.window.getD f.freshWindow) } segment.name now p) :
      Stride f load (.start now segment) p
  /-- A running transfer is woken. -/
  | woken {t : Transfer} {now : Nat} {w : Wake} {p : Pace} (hphase : f.phase = .downloading)
      (ht : f.transfer = some t)
      (hbeat : Beat f.pace t.name now load ((f.taken? w).map Prod.fst) p) :
      Stride f load (.wake now w) p
  | reset : Stride f load .reset { f.pace with roundTrip := f.roundTrip.forget }
  | sent {closed : Bool} : Stride f load (.sent closed) { f.pace with outbox := [] }
  | released : Stride f load .releaseWindow { f.pace with window := none }
  | installed {w : Window} {sound : w.Sound} :
      Stride f load (.installWindow w sound) { f.pace with window := some w }

/-- **One call** is a stride. -/
theorem perform_stride (h : f.InOrder s) {call : Call} (hg : f.perform call = .ok g) :
    Stride f g.load call g.pace := by
  -- Only a start and a wake send or measure. The rest leaves the pace alone, or a part of it.
  cases call with
  | start now segment =>
      rcases start_cases hg with ⟨-, rfl⟩ | ⟨hidle, rfl⟩
      · exact .nothing
      · exact .started (by simpa [isBusy] using hidle) (begin_asks f now segment)
  | wake now w =>
      rcases wake_cases h hg with ⟨-, rfl⟩ | ⟨-, hphase, ⟨t, ht⟩, hhandled⟩
      · exact .nothing
      · exact .woken hphase ht (handle_beat ht hhandled)
  | takeEvent =>
      obtain rfl := Except.ok.inj hg
      unfold takeEvent?
      split <;> exact .nothing
  | abort =>
      obtain rfl := Except.ok.inj hg
      exact .nothing
  | reset =>
      obtain rfl := Except.ok.inj hg
      exact .reset
  | takeCompleted =>
      obtain rfl := Except.ok.inj hg
      exact .nothing
  | sent closed =>
      obtain rfl := Except.ok.inj hg
      exact .sent
  | releaseWindow =>
      obtain rfl := Except.ok.inj hg
      exact .released
  | installWindow w sound =>
      obtain rfl := Except.ok.inj hg
      exact .installed

/-! ### The history of an estimate -/

/-- The round trip estimate of a fetcher has a history. -/
def HasHistory (settings : RoundTripSettings) (r : RoundTrip) : Prop :=
  ∃ history, RoundTrip.after settings history = .ok r

section
variable {settings : RoundTripSettings}

/-- A step that does not fail prolongs the history. -/
theorem HasHistory.step {r r' : RoundTrip} (hr : HasHistory settings r) {s : RoundTrip.Step}
    (hstep : r.step s = .ok r') : HasHistory settings r' := by
  obtain ⟨history, hhistory⟩ := hr
  exact ⟨s :: history, Checked.bind_eq_ok_iff.mpr ⟨r, hhistory, hstep⟩⟩

/-- The settings of an estimate that has a history, and the bound of its backoff. -/
theorem HasHistory.bounded {r : RoundTrip} (hr : HasHistory settings r) :
    r.settings = settings ∧ r.multiplier ≤ RoundTrip.maxMultiplier := by
  obtain ⟨history, hhistory⟩ := hr
  exact ⟨RoundTrip.settings_after hhistory, RoundTrip.multiplier_after_le hhistory⟩

/-- What a wake does to an estimate is a step, or nothing. -/
theorem HasHistory.trip {r r' : RoundTrip} (hr : HasHistory settings r) {name : String} {now : Nat}
    {gain : Option Nat} {sent : List Interest} (htrip : Trip r name now gain sent r') :
    HasHistory settings r' := by
  cases htrip with
  | still => exact hr
  | backedOff => exact hr.step (s := .backOff) rfl
  | @sent chunk => exact hr.step (s := .sent chunk now) rfl
  | @acked chunk _ _ hack =>
      exact hr.step (s := .ack chunk now) (Checked.bind_eq_ok_iff.mpr ⟨_, hack, rfl⟩)

/-- What a call does to the estimate of a fetcher is a history of steps. -/
theorem HasHistory.stride (hr : HasHistory settings f.roundTrip) {load : Nat} {call : Call}
    {p : Pace} (hstride : Stride f load call p) : HasHistory settings p.roundTrip := by
  cases hstride with
  | started _ hasks =>
      obtain ⟨_, -, htrip⟩ := hasks.trip
      exact (hr.step (s := .forget) rfl).trip htrip
  | woken _ _ hbeat =>
      obtain ⟨_, -, htrip⟩ := hbeat.trip
      exact hr.trip htrip
  | reset => exact hr.step (s := .forget) rfl
  | _ => exact hr

end

/-- **The estimate of a fetcher has a history** after any calls, whatever is noted of them. -/
theorem watch_history {β : Type} {note : β → Fetcher → Call → Fetcher → β} {b b' : β} {id : Nat}
    (hnew : ofSettings id s = .ok f) {calls : List Call}
    (hg : f.watch note b calls = .ok (b', g)) : HasHistory s.roundTrip g.roundTrip := by
  refine watch_preserves (fun _ f => HasHistory s.roundTrip f.roundTrip) (fun _ => True) ?_
    (fun _ _ => trivial) (inOrder_ofSettings hnew) ?_ hg
  · intro _ f call g horder _ _ hcall hf
    exact hf.stride (perform_stride horder hcall)
  · obtain ⟨window, -, h⟩ := Checked.bind_eq_ok_iff.mp hnew
    obtain rfl := Except.ok.inj h
    exact ⟨[], rfl⟩

/-- **No timeout is too long.** After calls with which nothing fails, the timeout of a fetcher is a
length of time, if the times in its settings are words of milliseconds. -/
theorem Workable.timeout_lt {calls : List Call} (h : Workable s calls)
    (hinitial : s.roundTrip.initialMillis < word64)
    (hminimum : s.roundTrip.minTimeoutMillis < word64) {id : Nat}
    (hnew : ofSettings id s = .ok f) (hg : f.performAll calls = .ok g) :
    g.roundTrip.timeout < word64 * Span.perSecond := by
  obtain ⟨g', hg', htame⟩ := h.performAll_ok hnew
  obtain rfl := Except.ok.inj (hg.symm.trans hg')
  -- Whether the calls are watched makes no difference to the estimate.
  obtain ⟨_, hwatch⟩ : ∃ b, f.watch (fun _ _ _ _ => ()) () calls = .ok (b, g) :=
    (performAll_eq_ok_iff_watch calls ()).mp hg
  obtain ⟨hsettings, hmultiplier⟩ := (watch_history hnew hwatch).bounded
  rw [← hsettings] at hinitial hminimum
  exact htame.timeout_lt hmultiplier hinitial hminimum

end

end LayerCast.Fetcher
