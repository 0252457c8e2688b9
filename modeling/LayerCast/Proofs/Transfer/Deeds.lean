import LayerCast.Proofs.Transfer.Books

/-!
# `LayerCast.Proofs.Transfer.Deeds`: all that one wake does

A wake of a running transfer does one thing, a `Deed`. It takes data, counts data that has arrived
before, puts a chunk back in line, sends a request, or gives the transfer up. Something may follow
from it, a `Sequel`: the owner is told that the transfer only drains, or the transfer ends with its
delivery. `handle_comes` says that every wake is a deed with its sequel.

Both are relations between scenes. A `Scene` is all of a fetcher but its clockwork: what is armed,
the round trip estimate, and the moments at which the window has changed. What a wake preserves is
then proved by the cases of the two relations, and no function behind them is opened again.
-/

set_option autoImplicit false

namespace LayerCast.Fetcher

/-! ### Scenes -/

/-- All of a fetcher but its clockwork. -/
structure Scene where
  settings : FetchSettings
  freshWindow : Window
  phase : FetchPhase
  transfer : Option Transfer
  window : Option Window
  events : List FetchEvent
  completed : Option Delivery
  outbox : List Interest

/-- The scene of a fetcher. -/
def scene (f : Fetcher) : Scene :=
  { settings := f.settings
    freshWindow := f.freshWindow
    phase := f.phase
    transfer := f.transfer
    window := f.window
    events := f.events
    completed := f.completed
    outbox := f.outbox }

@[simp] theorem scene_settings (f : Fetcher) : f.scene.settings = f.settings := rfl
@[simp] theorem scene_freshWindow (f : Fetcher) : f.scene.freshWindow = f.freshWindow := rfl
@[simp] theorem scene_phase (f : Fetcher) : f.scene.phase = f.phase := rfl
@[simp] theorem scene_transfer (f : Fetcher) : f.scene.transfer = f.transfer := rfl
@[simp] theorem scene_window (f : Fetcher) : f.scene.window = f.window := rfl
@[simp] theorem scene_events (f : Fetcher) : f.scene.events = f.events := rfl
@[simp] theorem scene_completed (f : Fetcher) : f.scene.completed = f.completed := rfl
@[simp] theorem scene_outbox (f : Fetcher) : f.scene.outbox = f.outbox := rfl

/-- The number of requests that may be out. -/
def Scene.windowSize (s : Scene) : Nat :=
  match s.window with
  | some w => w.size
  | none => 1

/-- A transfer that has taken a data chunk. -/
def withPart (t : Transfer) (chunk : Nat) (bytes : ByteArray) : Transfer :=
  { noteNew t chunk with
    remaining := t.remaining - bytes.size
    parts := insertPart chunk bytes t.parts }

/-- A transfer that has taken chunk 0. -/
def withLength (t : Transfer) (payload length : Nat) : Transfer :=
  { noteNew t 0 with
    chunks := ((t.chunks.receive 0).2.resize ((length + payload - 1) / payload + 1)).2
    remaining := t.remaining + (length + 1) }

/-! ### Deeds and sequels -/

/-- What a wake does to a running transfer, and the data that it takes. -/
inductive Deed (s : Scene) (t : Transfer) : Option (Nat × ByteArray) → Scene → Prop
  /-- Only the clockwork has moved. -/
  | nothing : Deed s t none s
  /-- Data had arrived before. -/
  | duplicate :
      Deed s t none { s with
        transfer := some { t with
          tally := { t.tally with duplicates := t.tally.duplicates + 1 } } }
  /-- A request was in vain, and the window may shrink. -/
  | setback {chunk : Nat} {chunks : ChunkTable} {tally : Tally} {window : Option Window}
      (hchunks : t.chunks.timeOut? chunk = some chunks)
      (htally : tally = { t.tally with timeouts := t.tally.timeouts + 1 } ∨
        tally = { t.tally with nacks := t.tally.nacks + 1 })
      (hwindow : window = s.window ∨
        window = s.window.map fun w => w.shrink.setThreshold chunks.inFlight) :
      Deed s t none { s with transfer := some { t with chunks, tally }, window }
  /-- A data chunk is taken, and the window may grow. -/
  | part {chunk : Nat} {bytes : ByteArray} {new : Bool} {window : Option Window}
      (hchunk : chunk ≠ 0) (hnew : (t.chunks.receive chunk).1 = .new new)
      (hwindow : window = s.window ∨ window = s.window.map Window.grow) :
      Deed s t (some (chunk, bytes))
        { s with transfer := some (withPart t chunk bytes), window }
  /-- Chunk 0 is taken, the table gets its true size, and the window may grow. -/
  | length {bytes : ByteArray} {length : Nat} {new : Bool} {window : Option Window}
      (hlength : Length.decode? bytes = some length)
      (hnew : (t.chunks.receive 0).1 = .new new)
      (hwindow : window = s.window ∨ window = s.window.map Window.grow) :
      Deed s t (some (0, bytes))
        { s with transfer := some (withLength t s.settings.chunkPayload length), window }
  /-- The first chunk that has to be requested is requested, within the window and the limit of
  attempts. -/
  | request {chunk lifetime : Nat} {chunks : ChunkTable}
      (hneeded : t.chunks.nextNeeded = some chunk) (hroom : t.chunks.inFlight < s.windowSize)
      (hlimit : ∀ limit, s.settings.retryLimit = some limit → t.chunks.attemptsOf chunk ≤ limit)
      (hchunks : t.chunks.request? chunk = some chunks) :
      Deed s t none { s with
        transfer := some { t with
          chunks
          tally := { t.tally with interests := t.tally.interests + 1 } }
        outbox := s.outbox ++ [⟨⟨t.name, chunk⟩, lifetime⟩] }
  /-- The transfer is given up while a chunk is missing. -/
  | reject {chunk : Nat} {status : ChunkStatus} (hstatus : t.chunks.status? chunk = some status)
      (hmissing : status ≠ .received) :
      Deed s t none { s with
        phase := .aborted
        transfer := some { t with chunks := t.chunks.abort }
        events := s.events ++ [.rejected] }

/-- What follows from a deed. -/
inductive Sequel (s : Scene) : Scene → Prop
  | same : Sequel s s
  /-- For the first time no chunk has to be requested. -/
  | drained {t : Transfer} (hphase : s.phase = .downloading) (ht : s.transfer = some t)
      (hneeded : t.chunks.nextNeeded = none) (hfirst : t.drained = false) :
      Sequel s { s with
        transfer := some { t with drained := true }
        events := s.events ++ [.soonFinished] }
  /-- No byte is to come. -/
  | finished {t : Transfer} {d : Delivery} (hphase : s.phase = .downloading)
      (ht : s.transfer = some t) (hzero : t.remaining = 0) (hsegment : d.segment = t.segment)
      (hbytes : d.bytes = assemble t.parts) (htally : d.tally = t.tally) :
      Sequel s { s with
        phase := .finished
        events := s.events ++ [.finished]
        completed := some d }

/-- A deed leaves open what comes of the transfer, or gives it up and says so. -/
theorem Deed.open_or_rejected {s mid : Scene} {t : Transfer} {gain : Option (Nat × ByteArray)}
    (h : Deed s t gain mid) (ht : s.transfer = some t) :
    ∃ u, mid.transfer = some u ∧ u.segment = t.segment ∧ u.name = t.name ∧
      u.drained = t.drained ∧ mid.completed = s.completed ∧
      (mid.phase = s.phase ∧ mid.events = s.events ∨
        mid.phase = .aborted ∧ mid.events = s.events ++ [.rejected]) := by
  cases h with
  | nothing => exact ⟨t, ht, rfl, rfl, rfl, rfl, .inl ⟨rfl, rfl⟩⟩
  | reject => exact ⟨_, rfl, rfl, rfl, rfl, rfl, .inr ⟨rfl, rfl⟩⟩
  | _ => exact ⟨_, rfl, rfl, rfl, rfl, rfl, .inl ⟨rfl, rfl⟩⟩

/-- Nothing follows from a deed that has ended the transfer. -/
theorem Sequel.eq_of_phase {s s' : Scene} (h : Sequel s s') (hphase : s.phase ≠ .downloading) :
    s' = s := by
  cases h with
  | same => rfl
  | drained hrunning => exact absurd hrunning hphase
  | finished hrunning => exact absurd hrunning hphase

/-- A sequel neither sends anything nor touches a chunk or the window. -/
theorem Sequel.keeps {s s' : Scene} (h : Sequel s s') :
    s'.settings = s.settings ∧ s'.freshWindow = s.freshWindow ∧ s'.window = s.window ∧
      s'.outbox = s.outbox ∧
      ∀ t, s.transfer = some t → ∃ drained, s'.transfer = some { t with drained } := by
  cases h with
  | same => exact ⟨rfl, rfl, rfl, rfl, fun t ht => ⟨t.drained, ht⟩⟩
  | drained _ ht =>
      refine ⟨rfl, rfl, rfl, rfl, fun u hu => ⟨true, ?_⟩⟩
      rw [Option.some.inj (hu.symm.trans ht)]
  | finished _ ht => exact ⟨rfl, rfl, rfl, rfl, fun u hu => ⟨u.drained, hu⟩⟩

/-- What a wake of a running transfer comes to. -/
def Comes (f : Fetcher) (t : Transfer) (gain : Option (Nat × ByteArray)) (g : Fetcher) : Prop :=
  ∃ mid, Deed f.scene t gain mid ∧ Sequel mid g.scene

section
variable {f g : Fetcher} {t : Transfer} {now chunk : Nat}

/-- A deed that nothing follows. -/
theorem comes_of_deed {gain : Option (Nat × ByteArray)} (h : Deed f.scene t gain g.scene) :
    f.Comes t gain g :=
  ⟨g.scene, h, .same⟩

/-! ### Giving up, requesting and scheduling -/

/-- A transfer that is refused is given up, and the owner is told. -/
theorem scene_reject (hphase : f.phase = .downloading) (ht : f.transfer = some t) :
    f.reject.scene = { f.scene with
      phase := .aborted
      transfer := some { t with chunks := t.chunks.abort }
      events := f.events ++ [.rejected] } := by
  simp [reject, abort, emit, scene, stopTimers, hphase, ht]

/-- Within the window the first chunk that has to be requested is requested, or the transfer is
given up because it was requested too often. -/
theorem request_deed (hphase : f.phase = .downloading) (ht : f.transfer = some t)
    (hneeded : t.chunks.nextNeeded = some chunk) (hroom : t.chunks.inFlight < f.windowSize) :
    Deed f.scene t none (f.request now chunk).scene := by
  unfold request
  rw [ht]
  simp only
  split
  · rw [scene_reject hphase ht]
    -- A chunk that has to be requested has not arrived.
    rcases ChunkTable.of_nextNeeded hneeded with hstatus | hstatus
    · exact .reject hstatus (by simp)
    · exact .reject hstatus (by simp)
  · rename_i hallowed
    split
    · exact .nothing
    · rename_i chunks hchunks
      refine .request hneeded hroom ?_ hchunks
      intro limit hlimit
      have hlimit' : f.settings.retryLimit = some limit := hlimit
      simpa [mayRequest, hlimit'] using hallowed

/-- Scheduling tells at most that every chunk is requested. -/
theorem scheduleNext_sequel (f : Fetcher) (now : Nat) :
    Sequel f.scene (f.scheduleNext now).scene := by
  unfold scheduleNext
  split
  · exact .same
  · rename_i hrunning
    have hphase : f.phase = .downloading :=
      Decidable.of_not_not fun hphase => hrunning (.inl hphase)
    split
    · exact .same
    · rename_i t ht
      split
      · exact .same
      · rename_i hneeded
        split
        · exact .same
        · rename_i hfirst
          -- No chunk has to be requested, and the owner has not been told so.
          exact .drained hphase ht hneeded (by simpa using hfirst)

/-- What follows from a deed that leaves the next request to be scheduled. -/
theorem comes_of_scheduleNext {mid : Fetcher} {gain : Option (Nat × ByteArray)}
    (h : Deed f.scene t gain mid.scene) : f.Comes t gain (mid.scheduleNext now) :=
  ⟨mid.scene, h, scheduleNext_sequel mid now⟩

/-- A pacing tick sends a request, gives up, or only schedules. -/
theorem onTick_comes (hphase : f.phase = .downloading) (ht : f.transfer = some t) :
    f.Comes t none (f.onTick now) := by
  unfold onTick
  rw [ht]
  simp only
  split
  · exact comes_of_deed .nothing
  · rename_i hfull
    split
    · rename_i chunk hneeded
      exact comes_of_scheduleNext (request_deed hphase ht hneeded (by omega))
    · exact comes_of_scheduleNext .nothing

/-! ### Setbacks -/

/-- At most the window changes, and only to the shrunk one. -/
theorem scene_shrinkWindow (ht : f.transfer = some t) (now : Nat) :
    ∃ window, (f.shrinkWindow now).scene = { f.scene with window } ∧
      (window = f.window ∨
        window = f.window.map fun w => w.shrink.setThreshold t.chunks.inFlight) := by
  unfold shrinkWindow
  split
  · exact ⟨f.window, rfl, .inl rfl⟩
  · refine ⟨_, ?_, .inr rfl⟩
    simp [scene, ht]

/-- A request in vain goes back in line. -/
theorem onSetback_comes (f : Fetcher) (now chunk : Nat) (t : Transfer) {tally : Tally}
    (htally : tally = { t.tally with timeouts := t.tally.timeouts + 1 } ∨
      tally = { t.tally with nacks := t.tally.nacks + 1 }) :
    f.Comes t none (f.onSetback now t chunk tally) := by
  unfold onSetback
  split
  · exact comes_of_deed .nothing
  · rename_i chunks hchunks
    obtain ⟨window, hscene, hwindow⟩ := scene_shrinkWindow (f := { f with
      transfer := some { t with chunks, tally }
      timers := f.timers.cancel chunk }) rfl now
    refine comes_of_scheduleNext ?_
    -- The round trip estimate, which backs off, is not part of the scene.
    show Deed f.scene t none (shrinkWindow _ now).scene
    rw [hscene]
    exact .setback hchunks htally hwindow

/-- A short chunk 0 goes back in line, and the window stays. -/
theorem onMalformedLength_comes (f : Fetcher) (now : Nat) (t : Transfer) :
    f.Comes t none (f.onMalformedLength now t) := by
  unfold onMalformedLength
  split
  · exact comes_of_deed .nothing
  · rename_i chunks hchunks
    exact comes_of_scheduleNext (.setback hchunks (.inl rfl) (.inl rfl))

/-! ### Data -/

/-- At most the window changes, and only to the grown one. -/
theorem scene_growWindow (f : Fetcher) (now : Nat) :
    ∃ window, (f.growWindow now).scene = { f.scene with window } ∧
      (window = f.window ∨ window = f.window.map Window.grow) := by
  unfold growWindow
  split
  · exact ⟨f.window, rfl, .inl rfl⟩
  · exact ⟨_, rfl, .inr rfl⟩

/-- A running transfer ends with its delivery, or goes on. -/
theorem proceed_sequel (hphase : f.phase = .downloading) (now : Nat) :
    Sequel f.scene (f.proceed now).scene := by
  unfold proceed
  split
  · rename_i t ht
    split
    · rename_i hzero
      unfold finish
      simp only [ht]
      exact .finished hphase ht hzero rfl rfl rfl
    · exact scheduleNext_sequel f now
  · exact scheduleNext_sequel f now

/-- Accepted data lets the window grow, and ends the transfer or lets it go on. -/
theorem comes_of_afterData {mid : Fetcher} {gain : Option (Nat × ByteArray)}
    (hg : mid.afterData now chunk = .ok g) (hphase : mid.phase = .downloading)
    (h : ∀ window, (window = mid.window ∨ window = mid.window.map Window.grow) →
      Deed f.scene t gain { mid.scene with window }) :
    f.Comes t gain g := by
  obtain ⟨_, roundTrip, -, rfl⟩ := afterData_eq_ok_iff.mp hg
  obtain ⟨window, hscene, hwindow⟩ := scene_growWindow { mid with
    timers := mid.timers.cancel chunk
    roundTrip } now
  refine ⟨_, ?_, proceed_sequel ?_ now⟩
  · rw [hscene]
    exact h window hwindow
  · exact (congrArg Scene.phase hscene).trans hphase

/-- Data for a chunk is counted, ignored or accepted. -/
theorem accept_comes (hphase : f.phase = .downloading) {bytes : ByteArray}
    {length : Option Nat} (hlength : length = if chunk = 0 then Length.decode? bytes else none)
    (hshort : isShort chunk bytes = false)
    (hg : f.accept now t chunk bytes length = .ok g) : f.Comes t (takes? t chunk bytes) g := by
  -- Only new data is taken. Of the rest, what comes again is counted.
  cases harrival : (t.chunks.receive chunk).1 with
  | duplicate =>
      rw [accept_duplicate harrival] at hg
      obtain rfl := Except.ok.inj hg
      rw [takes?_of_old bytes (by simp [harrival])]
      exact comes_of_deed .duplicate
  | ignored =>
      rw [accept_ignored harrival] at hg
      obtain rfl := Except.ok.inj hg
      rw [takes?_of_old bytes (by simp [harrival])]
      exact comes_of_deed .nothing
  | new new =>
      rw [takes?_of_new hshort harrival]
      by_cases hchunk : chunk = 0
      · subst hchunk
        rw [if_pos rfl] at hlength
        obtain ⟨n, hn⟩ : ∃ n, Length.decode? bytes = some n := by
          exact Option.isSome_iff_exists.mp (by simpa [isShort] using hshort)
        rw [hlength, hn, accept_length harrival] at hg
        split at hg
        · cases hg
        · exact comes_of_afterData hg hphase fun window hwindow => .length hn harrival hwindow
      · rw [if_neg hchunk] at hlength
        rw [hlength, accept_part harrival] at hg
        exact comes_of_afterData hg hphase fun window hwindow => .part hchunk harrival hwindow

/-- Data is a deed that takes what `takes?` says, with the sequel that it has. -/
theorem onData_comes (hphase : f.phase = .downloading) {bytes : ByteArray}
    (hg : f.onData now t chunk bytes = .ok g) :
    f.Comes t (takes? t chunk bytes) g := by
  unfold onData at hg
  -- A chunk 0 may be too short to hold a length.
  by_cases hchunk : chunk = 0
  · subst hchunk
    rw [if_pos rfl] at hg
    cases hlength : Length.decode? bytes with
    | none =>
        rw [hlength] at hg
        obtain rfl := Except.ok.inj hg
        rw [takes?, if_pos (by simp [isShort, hlength])]
        exact onMalformedLength_comes f now t
    | some length =>
        rw [hlength] at hg
        exact accept_comes hphase (by simp [hlength]) (by simp [isShort, hlength]) hg
  · rw [if_neg hchunk] at hg
    exact accept_comes hphase (by simp [hchunk]) (by simp [isShort, hchunk]) hg

/-! ### Wakes -/

/-- A reply is data, a setback or a refusal, or it is not for this transfer. -/
theorem onReply_comes (hphase : f.phase = .downloading) (ht : f.transfer = some t) {r : Reply}
    (hg : f.onReply now r = .ok g) : f.Comes t (f.taken? (.reply r)) g := by
  obtain ⟨name, body⟩ := r
  unfold onReply at hg
  rw [if_neg (not_not_intro hphase), ht] at hg
  simp only at hg
  by_cases hname : name.segment ≠ t.name
  · -- The reply is under another name.
    rw [if_pos hname] at hg
    obtain rfl := Except.ok.inj hg
    rw [taken?_of_name ht body hname]
    exact comes_of_deed .nothing
  · rw [if_neg hname] at hg
    -- The reply is for this transfer, and brings data or a refusal.
    cases body with
    | data bytes =>
        rw [taken?_data hphase ht (Decidable.of_not_not hname)]
        exact onData_comes hphase hg
    | nack reason =>
        cases reason with
        | congestion =>
            obtain rfl := Except.ok.inj hg
            exact onSetback_comes f now _ t (.inr rfl)
        | rejected =>
            obtain rfl := Except.ok.inj hg
            unfold onRejection
            split
            · rename_i hout
              refine comes_of_deed ?_
              rw [scene_reject hphase ht]
              exact .reject hout (by simp)
            · exact comes_of_deed .nothing

/-- **One wake of a running transfer** is a deed with its sequel. -/
theorem handle_comes (hphase : f.phase = .downloading) (ht : f.transfer = some t) {w : Wake}
    (hg : f.handle now w = .ok g) : f.Comes t (f.taken? w) g := by
  cases w with
  | reply r => exact onReply_comes hphase ht hg
  | faceEnd =>
      obtain rfl := Except.ok.inj hg
      exact comes_of_deed .nothing
  | timer chunk =>
      obtain rfl := Except.ok.inj hg
      rw [onTimer_eq ht]
      -- That the timer is gone does not show in the scene.
      exact onSetback_comes { f with timers := f.timers.expire chunk } now chunk t (.inl rfl)
  | tick =>
      obtain rfl := Except.ok.inj hg
      exact onTick_comes (f := { f with pacing := none }) hphase ht

end

end LayerCast.Fetcher
