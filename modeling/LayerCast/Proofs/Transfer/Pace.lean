import LayerCast.Proofs.Transfer.Books
import LayerCast.Proofs.Transfer.Clockwork

/-!
# `LayerCast.Proofs.Transfer.Pace`: what sets the pace of a fetcher

When a fetcher sends, and how much, follows from its round trip estimate, its window, and the
moments at which the window was changed last. Together with what was sent they are its `Pace`.

A wake of a transfer does one thing to them, a `Beat`: it sends a request, meets with a setback,
takes data, or does none of it. Whether the window changes depends on how long ago it was changed,
measured against the timeout, and the beats for both cases say so. `handle_beat` is the only place
where the handlers are opened for this.

One consequence is drawn here: a round trip estimate that cannot fail goes on being one
(`handle_tame`).
-/

set_option autoImplicit false

namespace LayerCast.Fetcher

/-- What sets the pace of a fetcher, and what it has sent. -/
structure Pace where
  roundTrip : RoundTrip
  window : Option Window
  lastCongestion : Option Nat
  lastIncrease : Option Nat
  outbox : List Interest

/-- The pace of a fetcher. -/
def pace (f : Fetcher) : Pace :=
  { roundTrip := f.roundTrip
    window := f.window
    lastCongestion := f.lastCongestion
    lastIncrease := f.lastIncrease
    outbox := f.outbox }

/-- The number of requests that are out. -/
def load (f : Fetcher) : Nat :=
  match f.transfer with
  | some t => t.chunks.inFlight
  | none => 0

/-- The parts of a pace. -/
theorem of_pace_eq {f : Fetcher} {p : Pace} (h : f.pace = p) :
    f.roundTrip = p.roundTrip ∧ f.window = p.window ∧ f.lastCongestion = p.lastCongestion ∧
      f.lastIncrease = p.lastIncrease ∧ f.outbox = p.outbox := by
  subst h
  exact ⟨rfl, rfl, rfl, rfl, rfl⟩

/-- A moment that lies no longer ago than the timeout. -/
def Recent (timeout now : Nat) (moment? : Option Nat) : Prop :=
  ∃ moment, moment? = some moment ∧ now - moment ≤ timeout

/-! ### Beats -/

/-- A request is sent under this name, or none. -/
inductive Asks (p : Pace) (name : String) (now : Nat) : Pace → Prop
  | nothing : Asks p name now p
  | request {chunk lifetime : Nat} :
      Asks p name now { p with
        roundTrip := p.roundTrip.sent chunk now
        outbox := p.outbox ++ [⟨⟨name, chunk⟩, lifetime⟩] }

/-- What a wake does to the pace of a transfer under this name, after which so many requests are
out; and the chunk whose data it takes. -/
inductive Beat (p : Pace) (name : String) (now load : Nat) : Option Nat → Pace → Prop
  /-- No data is taken, and no request was in vain. -/
  | asks {p' : Pace} (hasks : Asks p name now p') : Beat p name now load none p'
  /-- A request was in vain soon after a decrease. -/
  | spared (hrecent : Recent p.roundTrip.timeout now p.lastCongestion) :
      Beat p name now load none { p with roundTrip := p.roundTrip.backOff }
  /-- A request was in vain, and the window is decreased. -/
  | shrunk (hlate : ¬Recent p.roundTrip.timeout now p.lastCongestion) :
      Beat p name now load none { p with
        roundTrip := p.roundTrip.backOff
        lastCongestion := some now
        window := p.window.map fun w => w.shrink.setThreshold load }
  /-- Data is taken soon after a change of the window. -/
  | held {chunk : Nat} {sample? : Option Nat} {r : RoundTrip}
      (hack : p.roundTrip.ack chunk now = .ok (sample?, r))
      (hrecent : Recent r.timeout now p.lastIncrease ∨ Recent r.timeout now p.lastCongestion) :
      Beat p name now load (some chunk) { p with roundTrip := r }
  /-- Data is taken, and the window is increased. -/
  | grown {chunk : Nat} {sample? : Option Nat} {r : RoundTrip}
      (hack : p.roundTrip.ack chunk now = .ok (sample?, r))
      (hincrease : ¬Recent r.timeout now p.lastIncrease)
      (hcongestion : ¬Recent r.timeout now p.lastCongestion) :
      Beat p name now load (some chunk) { p with
        roundTrip := r
        lastIncrease := some now
        window := p.window.map Window.grow }

/-- What a wake does to a round trip estimate, the chunk whose data it takes, and the interests that
it sends under this name. -/
inductive Trip (r : RoundTrip) (name : String) (now : Nat) :
    Option Nat → List Interest → RoundTrip → Prop
  | still : Trip r name now none [] r
  | backedOff : Trip r name now none [] r.backOff
  | sent {chunk lifetime : Nat} :
      Trip r name now none [⟨⟨name, chunk⟩, lifetime⟩] (r.sent chunk now)
  | acked {chunk : Nat} {sample? : Option Nat} {r' : RoundTrip}
      (hack : r.ack chunk now = .ok (sample?, r')) : Trip r name now (some chunk) [] r'

/-- What a request does to the estimate. -/
theorem Asks.trip {p p' : Pace} {name : String} {now : Nat} (h : Asks p name now p') :
    ∃ sent, p'.outbox = p.outbox ++ sent ∧ Trip p.roundTrip name now none sent p'.roundTrip := by
  cases h with
  | nothing => exact ⟨[], (List.append_nil _).symm, .still⟩
  | request => exact ⟨_, rfl, .sent⟩

/-- A request does not touch the smoothed values. -/
theorem Asks.tame {p p' : Pace} {name : String} {now : Nat} (h : Asks p name now p')
    (htame : p.roundTrip.Tame) : p'.roundTrip.Tame := by
  cases h with
  | nothing => exact htame
  | @request chunk => exact htame.sent chunk now

/-- What a beat does to the estimate. The window and its moments do not matter. -/
theorem Beat.trip {p p' : Pace} {name : String} {now load : Nat} {gain : Option Nat}
    (h : Beat p name now load gain p') :
    ∃ sent, p'.outbox = p.outbox ++ sent ∧ Trip p.roundTrip name now gain sent p'.roundTrip := by
  have hnothing : p.outbox = p.outbox ++ [] := (List.append_nil _).symm
  cases h with
  | asks hasks => exact hasks.trip
  | spared => exact ⟨[], hnothing, .backedOff⟩
  | shrunk => exact ⟨[], hnothing, .backedOff⟩
  | held hack => exact ⟨[], hnothing, .acked hack⟩
  | grown hack => exact ⟨[], hnothing, .acked hack⟩

/-- An estimate that cannot fail goes on being one. -/
theorem Trip.tame {r r' : RoundTrip} {name : String} {now : Nat} {gain : Option Nat}
    {sent : List Interest} (h : Trip r name now gain sent r') (htame : r.Tame)
    (hnow : now ≤ RoundTrip.horizon) : r'.Tame := by
  cases h with
  | still => exact htame
  | backedOff => exact htame.backOff
  | @sent chunk => exact htame.sent chunk now
  | @acked chunk _ _ hack =>
      obtain ⟨_, next, hnext, hnextTame⟩ := htame.ack chunk hnow
      obtain ⟨-, rfl⟩ := Prod.mk.inj (Except.ok.inj (hack.symm.trans hnext))
      exact hnextTame

section
variable {s : FetchSettings} {f g : Fetcher} {t : Transfer} {now chunk : Nat}

/-! ### Helpers that keep the pace -/

/-- To set the next tick leaves the pace and the load alone. -/
theorem pace_scheduleNext (f : Fetcher) (now : Nat) :
    (f.scheduleNext now).pace = f.pace ∧ (f.scheduleNext now).load = f.load := by
  unfold scheduleNext
  split
  · exact ⟨rfl, rfl⟩
  · split
    · exact ⟨rfl, rfl⟩
    · rename_i t ht
      split
      · exact ⟨rfl, rfl⟩
      · split
        · exact ⟨rfl, rfl⟩
        · exact ⟨rfl, by simp [load, emit, ht]⟩

/-- A transfer that is given up keeps its pace. -/
theorem pace_reject (f : Fetcher) : f.reject.pace = f.pace := rfl

/-- A transfer that ends or goes on keeps its pace. -/
theorem pace_proceed (f : Fetcher) (now : Nat) : (f.proceed now).pace = f.pace := by
  unfold proceed
  split
  · split
    · unfold finish
      split <;> rfl
    · exact (pace_scheduleNext f now).1
  · exact (pace_scheduleNext f now).1

/-- Whether a moment is recent is measured by the present timeout. -/
theorem isRecent_iff (f : Fetcher) (now : Nat) (moment? : Option Nat) :
    f.isRecent now moment? = true ↔ Recent f.roundTrip.timeout now moment? := by
  cases moment? with
  | none => simp [isRecent, Recent]
  | some moment => simp [isRecent, Recent, Instant.since]

/-! ### Wakes -/

/-- A beat that scheduling follows. -/
theorem beat_scheduleNext {p : Pace} {name : String} {gain : Option Nat}
    (h : Beat p name now f.load gain f.pace) :
    Beat p name now (f.scheduleNext now).load gain (f.scheduleNext now).pace := by
  obtain ⟨hpace, hload⟩ := pace_scheduleNext f now
  rw [hpace, hload]
  exact h

/-- A request is sent under the name of the transfer, or refused. -/
theorem request_asks (ht : f.transfer = some t) (now chunk : Nat) :
    Asks f.pace t.name now (f.request now chunk).pace := by
  unfold request
  rw [ht]
  simp only
  split
  · rw [pace_reject]
    exact .nothing
  · split
    · exact .nothing
    · exact .request

/-- A tick requests a chunk where the window has room. -/
theorem onTick_beat (ht : f.transfer = some t) :
    Beat f.pace t.name now (f.onTick now).load none (f.onTick now).pace := by
  unfold onTick
  rw [ht]
  simp only
  split
  · exact .asks .nothing
  · split
    · exact beat_scheduleNext (.asks (request_asks ht now _))
    · exact beat_scheduleNext (.asks .nothing)

/-- After a setback the timeout backs off, and the window is decreased unless that was done within
one timeout. -/
theorem backOff_beat (f : Fetcher) (name : String) (now : Nat) {g : Fetcher}
    (hg : { f.shrinkWindow now with roundTrip := (f.shrinkWindow now).roundTrip.backOff } = g) :
    Beat f.pace name now g.load none g.pace := by
  subst hg
  unfold shrinkWindow
  split
  · rename_i hrecent
    exact .spared ((isRecent_iff f now _).mp hrecent)
  · rename_i hlate
    exact .shrunk fun hrecent => hlate ((isRecent_iff f now _).mpr hrecent)

/-- A request in vain is spared or shrinks the window, and doubles the timeout. -/
theorem onSetback_beat (f : Fetcher) (now chunk : Nat) (t : Transfer) (tally : Tally) :
    Beat f.pace t.name now (f.onSetback now t chunk tally).load none
      (f.onSetback now t chunk tally).pace := by
  unfold onSetback
  split
  · exact .asks .nothing
  · rename_i chunks _
    -- That the chunk is not out any more does not show in the pace.
    exact beat_scheduleNext (backOff_beat { f with
      transfer := some { t with chunks, tally }
      timers := f.timers.cancel chunk } t.name now rfl)

/-- A chunk 0 without a length touches neither the window nor the estimate. -/
theorem onMalformedLength_beat (f : Fetcher) (now : Nat) (t : Transfer) :
    Beat f.pace t.name now (f.onMalformedLength now t).load none
      (f.onMalformedLength now t).pace := by
  unfold onMalformedLength
  split
  · exact .asks .nothing
  · exact beat_scheduleNext (.asks .nothing)

/-- Data that is taken gives a sample or none, and then the window is increased unless it was
changed within one timeout. -/
theorem afterData_beat (hg : f.afterData now chunk = .ok g) (name : String) (load : Nat) :
    Beat f.pace name now load (some chunk) g.pace := by
  obtain ⟨_, r, hack, rfl⟩ := afterData_eq_ok_iff.mp hg
  rw [pace_proceed]
  unfold growWindow
  split
  · rename_i hrecent
    rw [Bool.or_eq_true, isRecent_iff, isRecent_iff] at hrecent
    exact .held hack hrecent
  · rename_i hlate
    rw [Bool.or_eq_true, isRecent_iff, isRecent_iff, not_or] at hlate
    exact .grown hack hlate.1 hlate.2

/-- Data for a chunk is counted, ignored or accepted. -/
theorem accept_beat {bytes : ByteArray} {length : Option Nat}
    (hshort : isShort chunk bytes = false)
    (hg : f.accept now t chunk bytes length = .ok g) :
    Beat f.pace t.name now g.load ((takes? t chunk bytes).map Prod.fst) g.pace := by
  -- Data that is not new asks for nothing and touches nothing.
  cases harrival : (t.chunks.receive chunk).1 with
  | duplicate =>
      rw [accept_duplicate harrival] at hg
      obtain rfl := Except.ok.inj hg
      rw [takes?_of_old bytes (by simp [harrival])]
      exact .asks .nothing
  | ignored =>
      rw [accept_ignored harrival] at hg
      obtain rfl := Except.ok.inj hg
      rw [takes?_of_old bytes (by simp [harrival])]
      exact .asks .nothing
  | new new =>
      rw [takes?_of_new hshort harrival]
      cases length with
      | none =>
          rw [accept_part harrival] at hg
          exact afterData_beat hg t.name _
      | some length =>
          rw [accept_length harrival] at hg
          split at hg
          · cases hg
          · exact afterData_beat hg t.name _

/-- Data that is taken is acknowledged, and the window grows or is left as it is. -/
theorem onData_beat {bytes : ByteArray} (hg : f.onData now t chunk bytes = .ok g) :
    Beat f.pace t.name now g.load ((takes? t chunk bytes).map Prod.fst) g.pace := by
  unfold onData at hg
  by_cases hchunk : chunk = 0
  · subst hchunk
    rw [if_pos rfl] at hg
    cases hlength : Length.decode? bytes with
    | none =>
        rw [hlength] at hg
        obtain rfl := Except.ok.inj hg
        rw [takes?, if_pos (by simp [isShort, hlength])]
        exact onMalformedLength_beat f now t
    | some length =>
        rw [hlength] at hg
        exact accept_beat (by simp [isShort, hlength]) hg
  · rw [if_neg hchunk] at hg
    exact accept_beat (by simp [isShort, hchunk]) hg

/-- A reply is data, a setback or a refusal, or it is not for this transfer. -/
theorem onReply_beat (ht : f.transfer = some t) {r : Reply} (hg : f.onReply now r = .ok g) :
    Beat f.pace t.name now g.load ((f.taken? (.reply r)).map Prod.fst) g.pace := by
  obtain ⟨name, body⟩ := r
  unfold onReply at hg
  -- Where no transfer runs, a reply means nothing.
  by_cases hphase : f.phase ≠ .downloading
  · rw [if_pos hphase] at hg
    obtain rfl := Except.ok.inj hg
    rw [taken?_of_phase_ne hphase]
    exact .asks .nothing
  rw [if_neg hphase, ht] at hg
  simp only at hg
  by_cases hname : name.segment ≠ t.name
  · -- The reply is under another name.
    rw [if_pos hname] at hg
    obtain rfl := Except.ok.inj hg
    rw [taken?_of_name ht body hname]
    exact .asks .nothing
  · rw [if_neg hname] at hg
    cases body with
    | data bytes =>
        rw [taken?_data (Decidable.of_not_not hphase) ht (Decidable.of_not_not hname)]
        exact onData_beat hg
    | nack reason =>
        cases reason with
        | congestion =>
            obtain rfl := Except.ok.inj hg
            exact onSetback_beat f now _ t _
        | rejected =>
            obtain rfl := Except.ok.inj hg
            unfold onRejection
            split
            · rw [pace_reject]
              exact .asks .nothing
            · exact .asks .nothing

/-- **One wake of a transfer** is a beat. -/
theorem handle_beat (ht : f.transfer = some t) {w : Wake} (hg : f.handle now w = .ok g) :
    Beat f.pace t.name now g.load ((f.taken? w).map Prod.fst) g.pace := by
  cases w with
  | reply r => exact onReply_beat ht hg
  | faceEnd =>
      obtain rfl := Except.ok.inj hg
      exact .asks .nothing
  | timer chunk =>
      obtain rfl := Except.ok.inj hg
      rw [onTimer_eq ht]
      -- That the timer is gone does not show in the pace.
      exact onSetback_beat { f with timers := f.timers.expire chunk } now chunk t _
  | tick =>
      obtain rfl := Except.ok.inj hg
      exact onTick_beat (f := { f with pacing := none }) ht

/-- **A start** asks for chunk 0 at most, after the requests that wait are forgotten. -/
theorem begin_asks (f : Fetcher) (now : Nat) (segment : Segment) :
    Asks { f.pace with
      roundTrip := f.roundTrip.forget
      window := some (f.window.getD f.freshWindow) } segment.name now (f.begin now segment).pace :=
  -- The first tick is not part of the pace.
  request_asks (f := f.opened now segment) rfl now 0

/-! ### Estimates that cannot fail -/

/-- A start does not touch the smoothed values. -/
theorem begin_tame (htame : f.roundTrip.Tame) (now : Nat) (segment : Segment) :
    (f.begin now segment).roundTrip.Tame :=
  (begin_asks f now segment).tame htame.forget

/-- **A wake of a transfer** keeps an estimate that cannot fail. -/
theorem handle_tame (ht : f.transfer = some t) (htame : f.roundTrip.Tame)
    (hnow : now ≤ RoundTrip.horizon) {w : Wake} (hg : f.handle now w = .ok g) :
    g.roundTrip.Tame := by
  obtain ⟨_, -, htrip⟩ := (handle_beat ht hg).trip
  exact htrip.tame htame hnow

end

end LayerCast.Fetcher
