import LayerCast.Proofs.Transfer.Events
import LayerCast.Proofs.Transfer.Window

/-!
# `LayerCast.Proofs.Transfer.Requests`: when a chunk may be requested

A transfer requests a chunk only if it has to be, only within the window, and not too often.
`request_discipline` says so for every call on a fetcher, whatever has happened before.

The number of attempts is kept in the chunk table, which loses a part of them when chunk 0 tells the
size. What makes the limit right all the same is that the table is resized once. So a chunk that was
ever requested either has its attempts in the table, or lies behind the end of a table that will not
grow any more (`Counts`).

The window may shrink below the number of requests that are out. A static one does not, so that the
number of requests never exceeds it (`Capped`).
-/

set_option autoImplicit false

namespace LayerCast

/-- A wake adds the requests that it sends. -/
theorem Diary.requests_wake (d : Diary) (gain : Option (Nat × ByteArray)) (sent : List Interest)
    (phase : FetchPhase) (i : Nat) :
    (d.wake gain sent phase).requests i = d.requests i + (sent.map (·.name.chunk)).count i := by
  simp [requests, wake, List.map_append, List.count_append]

namespace Fetcher

variable {d d' : Diary} {f g : Fetcher} {s s' mid : Scene} {t u : Transfer} {call : Call}
  {gain : Option (Nat × ByteArray)} {settings : FetchSettings}

/-! ### Attempts -/

/-- The table knows how often each chunk was requested, unless it has lost the chunk for good. -/
structure Counts (d : Diary) (chunks : ChunkTable) : Prop where
  attempted : chunks.Attempted
  counted : ∀ i, d.requests i = chunks.attemptsOf i ∨
    chunks.size ≤ i ∧ chunks.status? 0 = some .received

/-- No chunk was requested too often, and the table knows how often it was. -/
structure Requests (d : Diary) (s : Scene) : Prop where
  limited : ∀ limit, s.settings.retryLimit = some limit → ∀ i, d.requests i ≤ limit + 1
  counts : ∀ t, s.transfer = some t → Counts d t.chunks

/-- A chunk inside the table has its attempts in the table. -/
theorem Counts.inside {chunks : ChunkTable} (h : Counts d chunks) {i : Nat}
    (hi : i < chunks.size) : d.requests i = chunks.attemptsOf i :=
  (h.counted i).resolve_right fun hlost => absurd hlost.1 (by omega)

/-- Only the numbers of requests are compared. -/
theorem Counts.congr {chunks : ChunkTable} (h : Counts d chunks)
    (hd : ∀ i, d'.requests i = d.requests i) : Counts d' chunks where
  attempted := h.attempted
  counted i := by
    rw [hd]
    exact h.counted i

/-- A table may change as long as it keeps its size, its attempts and chunk 0. -/
theorem Counts.keep {chunks chunks' : ChunkTable} (h : Counts d chunks)
    (hattempted : chunks'.Attempted) (hsize : chunks'.size = chunks.size)
    (hattempts : ∀ i, chunks'.attemptsOf i = chunks.attemptsOf i)
    (hreceived : chunks.status? 0 = some .received → chunks'.status? 0 = some .received) :
    Counts d chunks' where
  attempted := hattempted
  counted i := by
    rw [hattempts, hsize]
    exact (h.counted i).imp_right (And.imp_right hreceived)

/-- A timeout requests nothing. -/
theorem Counts.timeOut? {chunks chunks' : ChunkTable} (h : Counts d chunks) {chunk : Nat}
    (hchunks : chunks.timeOut? chunk = some chunks') : Counts d chunks' := by
  refine h.keep (h.attempted.timeOut? hchunks) (ChunkTable.size_timeOut? hchunks)
    (ChunkTable.attemptsOf_timeOut? hchunks) fun hreceived => ?_
  -- The request was out, so that this is not chunk 0.
  have hout := ChunkTable.requested_of_timeOut? hchunks
  have hchunk : 0 ≠ chunk := by
    rintro rfl
    simp [hreceived] at hout
  rw [ChunkTable.status?_timeOut? hchunks, if_neg hchunk, hreceived]

/-- An arrival requests nothing, and loses no chunk. -/
theorem Counts.receive {chunks : ChunkTable} (h : Counts d chunks) {chunk : Nat} {new : Bool}
    (hnew : (chunks.receive chunk).1 = .new new) : Counts d (chunks.receive chunk).2 := by
  refine h.keep (h.attempted.receive chunk) (ChunkTable.size_receive chunks chunk)
    (ChunkTable.attemptsOf_receive chunks chunk) fun hreceived => ?_
  rw [ChunkTable.status?_receive hnew]
  split
  · rfl
  · exact hreceived

/-- Giving up requests nothing, and loses no chunk. -/
theorem Counts.abort {chunks : ChunkTable} (h : Counts d chunks) : Counts d chunks.abort := by
  refine h.keep h.attempted.abort (ChunkTable.size_abort chunks)
    (ChunkTable.attemptsOf_abort chunks) fun hreceived => ?_
  rw [ChunkTable.status?_abort, hreceived]
  rfl

/-- When chunk 0 arrives, no chunk was lost before. Those that the table loses now are lost for
good. -/
theorem Counts.resize {chunks : ChunkTable} (h : Counts d chunks) {new : Bool}
    (hnew : (chunks.receive 0).1 = .new new) (n : Nat) :
    Counts d ((chunks.receive 0).2.resize (n + 1)).2 where
  attempted := ChunkTable.attempted_resize _ _
  counted i := by
    have hmissing : chunks.status? 0 ≠ some .received := by
      rcases ChunkTable.new_iff.mp ⟨new, hnew⟩ with hstatus | hstatus <;> simp [hstatus]
    rw [ChunkTable.attemptsOf_resize, ChunkTable.size_resize, ChunkTable.status?_resize,
      ChunkTable.status?_receive hnew, ChunkTable.attemptsOf_receive]
    by_cases hi : i < n + 1
    · left
      rw [if_pos hi]
      exact (h.counted i).resolve_right fun hlost => hmissing hlost.2
    · right
      exact ⟨by omega, by simp⟩

/-- A request is noted in the diary and in the table. -/
theorem Counts.request? {chunks chunks' : ChunkTable} (h : Counts d chunks) {chunk : Nat}
    (hchunks : chunks.request? chunk = some chunks')
    (hd : ∀ i, d'.requests i = d.requests i + if i = chunk then 1 else 0) :
    Counts d' chunks' where
  attempted := h.attempted.request? hchunks
  counted i := by
    have hneeded := ChunkTable.needed_of_request? hchunks
    rw [hd, ChunkTable.attemptsOf_request? h.attempted hchunks, ChunkTable.size_request? hchunks]
    rcases h.counted i with hcounted | ⟨hlost, hreceived⟩
    · exact .inl (by rw [hcounted])
    · -- A lost chunk is not requested, and neither is chunk 0 after it has arrived.
      right
      refine ⟨hlost, ?_⟩
      rw [ChunkTable.status?_request? hchunks]
      split
      · rename_i hzero
        subst hzero
        simp [hreceived] at hneeded
      · exact hreceived

/-- Where nothing is sent, the counts stay. -/
theorem Requests.silent (h : Requests d s) (hd : ∀ i, d'.requests i = d.requests i)
    (hsettings : s'.settings = s.settings) (hu : s'.transfer = some u)
    (hcounts : Counts d u.chunks) : Requests d' s' where
  limited limit hlimit i := by
    rw [hd]
    exact h.limited limit (hsettings ▸ hlimit) i
  counts v hv := by
    obtain rfl : u = v := Option.some.inj (hu.symm.trans hv)
    exact hcounts.congr hd

/-- What a deed sends is noted, and does not exceed the limit. -/
theorem Requests.deed (h : Requests d s) (ht : s.transfer = some t) (hdeed : Deed s t gain mid)
    (phase : FetchPhase) :
    Requests (d.wake gain (mid.outbox.drop s.outbox.length) phase) mid := by
  have hcounts := h.counts t ht
  -- Only a request sends something, so that all other deeds leave the numbers alone.
  have hnone : ∀ gain i, (d.wake gain (s.outbox.drop s.outbox.length) phase).requests i =
      d.requests i := by
    intro gain i
    simp [Diary.requests_wake]
  cases hdeed with
  | nothing => exact h.silent (hnone _) rfl ht hcounts
  | duplicate => exact h.silent (hnone _) rfl rfl hcounts
  | setback hchunks => exact h.silent (hnone _) rfl rfl (hcounts.timeOut? hchunks)
  | part _ hnew => exact h.silent (hnone _) rfl rfl (hcounts.receive hnew)
  | length _ hnew => exact h.silent (hnone _) rfl rfl (hcounts.resize hnew _)
  | reject => exact h.silent (hnone _) rfl rfl hcounts.abort
  | @request chunk lifetime chunks _ _ hallowed hchunks =>
      have hsent : ∀ i, (d.wake none ((s.outbox ++ [Interest.mk ⟨t.name, chunk⟩ lifetime]).drop
          s.outbox.length) phase).requests i = d.requests i + if i = chunk then 1 else 0 := by
        intro i
        rw [Diary.requests_wake, List.drop_left, List.map_singleton, List.count_singleton]
        by_cases hi : i = chunk
        · simp [hi]
        · simp [hi, Ne.symm hi]
      refine ⟨fun limit hlimit i => ?_, fun v hv => ?_⟩
      · rw [hsent]
        have hbefore := h.limited limit hlimit i
        split
        · -- The chunk lies in the table, whose attempts do not exceed the limit.
          rename_i hi
          subst hi
          have hinside : i < t.chunks.size := by
            rcases ChunkTable.needed_of_request? hchunks with hs | hs <;>
              exact ChunkTable.lt_size_of_status? hs
          have hattempts := hallowed limit hlimit
          rw [hcounts.inside hinside]
          omega
        · exact hbefore
      · obtain rfl := Option.some.inj hv
        exact hcounts.request? hchunks hsent

/-- A sequel requests nothing. -/
theorem Requests.sequel (h : Requests d mid) (hu : mid.transfer = some u)
    (hsequel : Sequel mid s') : Requests d s' := by
  obtain ⟨hsettings, -, -, -, htransfer⟩ := hsequel.keeps
  obtain ⟨drained, hs'⟩ := htransfer u hu
  exact h.silent (fun _ => rfl) hsettings hs' (h.counts u hu)

/-- **One turn** keeps the counts. -/
theorem Requests.turn (h : Requests d f.scene) (hturn : Turn d f call d' s') :
    Requests d' s' := by
  have hempty : ∀ i, ({} : Diary).requests i = 0 := fun i => rfl
  cases hturn with
  | @started now segment _ _ hdeed =>
      -- A transfer starts with fresh counts, and its first request is a deed like any other.
      have hopened : Requests {} (f.opened now segment).scene := by
        refine ⟨fun limit _ i => by simp [hempty], fun t ht => ?_⟩
        obtain rfl : f.untouched now segment = t := Option.some.inj ht
        refine ⟨ChunkTable.attempted_ofSize _, fun i => .inl ?_⟩
        rw [hempty]
        exact (ChunkTable.attemptsOf_ofSize _ i).symm
      exact hopened.deed rfl hdeed _
  | @woken t _ _ _ s' _ ht hdeed hsequel =>
      obtain ⟨u, hu, -⟩ := hdeed.open_or_rejected ht
      have hmid := h.deed ht hdeed s'.phase
      rw [← hsequel.keeps.2.2.2.1] at hmid
      exact hmid.sequel hu hsequel
  | reset => exact ⟨fun limit _ i => by simp [hempty], fun t ht => nomatch ht⟩
  | aborted =>
      refine ⟨h.limited, fun u hu => ?_⟩
      obtain ⟨t, ht, rfl⟩ := Option.map_eq_some_iff.mp hu
      exact (h.counts t ht).abort
  | _ => exact ⟨h.limited, fun t ht => (h.counts t ht).congr fun _ => rfl⟩

/-- So the requests are right at every moment of a life. -/
theorem follow_requests {id : Nat} (hnew : ofSettings id settings = .ok f) {calls : List Call}
    (hg : f.follow {} calls = .ok (d, g)) : Requests d g.scene :=
  turns_preserve hnew Requests (fun _ => ⟨fun _ _ _ => Nat.zero_le _, fun _ ht => nomatch ht⟩)
    (fun _ _ _ _ _ h hturn => h.turn hturn) hg

/-! ### Interests -/

/-- The transfer that a call finds. A start finds a new one, of which nothing was requested. -/
def finds? (f : Fetcher) : Call → Option Transfer
  | .start now segment => some (f.untouched now segment)
  | _ => f.transfer

/-- A call has sent one interest, for a chunk that had to be requested, and within the window. -/
structure SendsOne (f : Fetcher) (call : Call) (g : Fetcher) (t u : Transfer) (chunk : Nat) :
    Prop where
  before : f.finds? call = some t
  after : g.transfer = some u
  interest : ∃ lifetime, f.sends g = [⟨⟨t.name, chunk⟩, lifetime⟩]
  inside : chunk < t.chunks.size
  needed : t.chunks.status? chunk = some .untouched ∨ t.chunks.status? chunk = some .timedOut
  counted : u.chunks.inFlight = u.chunks.status.count .requested
  window : u.chunks.inFlight ≤ g.windowSize

/-- A deed sends nothing, or one interest within the window. -/
theorem Deed.quiet_or_requests (h : Deed s t gain mid) :
    mid.outbox = s.outbox ∨ ∃ u chunk lifetime, mid.transfer = some u ∧ mid.window = s.window ∧
      mid.outbox = s.outbox ++ [⟨⟨t.name, chunk⟩, lifetime⟩] ∧
      t.chunks.request? chunk = some u.chunks ∧ t.chunks.inFlight < s.windowSize := by
  cases h with
  | request _ hroom _ hchunks => exact .inr ⟨_, _, _, rfl, rfl, rfl, hchunks, hroom⟩
  | _ => exact .inl rfl

/-- What a deed sends is what its call has sent. -/
theorem sendsOne_of_deed (hfinds : f.finds? call = some t) (hcounted : t.chunks.Counted)
    (houtbox : s.outbox = f.outbox) (hdeed : Deed s t gain mid) (hsequel : Sequel mid g.scene) :
    f.sends g = [] ∨ ∃ t u chunk, SendsOne f call g t u chunk := by
  obtain ⟨-, -, hwindow, hsame, htransfer⟩ := hsequel.keeps
  -- What is sent in a wake is what the deed adds to the outbox.
  have hsends : f.sends g = mid.outbox.drop s.outbox.length := by
    rw [sends, houtbox, ← hsame]
    rfl
  rcases hdeed.quiet_or_requests with hquiet |
    ⟨u, chunk, lifetime, hu, hkept, hsent, hchunks, hroom⟩
  · left
    rw [hsends, hquiet, List.drop_length]
  · right
    obtain ⟨drained, hg⟩ := htransfer u hu
    have hsize : g.windowSize = s.windowSize := by
      show g.scene.windowSize = _
      rw [Scene.windowSize, hwindow, hkept]
      rfl
    have hneeded := ChunkTable.needed_of_request? hchunks
    refine ⟨t, { u with drained }, chunk, hfinds, hg, ⟨lifetime, ?_⟩, ?_, hneeded,
      hcounted.request? hchunks, ?_⟩
    · rw [hsends, hsent, List.drop_left]
    · rcases hneeded with hstatus | hstatus <;> exact ChunkTable.lt_size_of_status? hstatus
    · rw [hsize, ChunkTable.inFlight_request? hchunks]
      exact hroom

/-- **One call** sends nothing, or one interest. -/
theorem perform_sends (h : f.InOrder settings) (hg : f.perform call = .ok g) :
    f.sends g = [] ∨ ∃ t u chunk, SendsOne f call g t u chunk := by
  have hturn := perform_turn h (d := {}) hg
  -- Where the outbox stays or is emptied, nothing was sent.
  have hquiet : g.scene.outbox = f.outbox ∨ g.scene.outbox = [] → f.sends g = [] := by
    rintro (hsame | hempty)
    · exact (congrArg (List.drop _) hsame).trans List.drop_length
    · exact (congrArg (List.drop _) hempty).trans List.drop_nil
  generalize hs : g.scene = s' at hturn hquiet
  generalize note {} f call g = d' at hturn
  cases hturn with
  | started _ hdeed =>
      subst hs
      exact sendsOne_of_deed rfl (ChunkTable.counted_ofSize _) rfl hdeed .same
  | woken hphase ht hdeed hsequel =>
      subst hs
      obtain ⟨t, hclocked, -⟩ := h.of_busy hphase
      obtain rfl := Option.some.inj (ht.symm.trans hclocked.transfer)
      exact sendsOne_of_deed ht hclocked.counted rfl hdeed hsequel
  | sent => exact .inl (hquiet (.inr rfl))
  | _ => exact .inl (hquiet (.inl rfl))

/-! ### A static window -/

/-- A window that does not change bounds the requests that are out. -/
structure Capped (w : Window) (s : Scene) : Prop where
  fresh : s.freshWindow = w
  window : ∀ v, s.window = some v → v = w
  inFlight : ∀ t, s.transfer = some t → t.chunks.inFlight ≤ w.size

variable {w : Window}

/-- Where there is no window, one request may be out, and that is not more than a window allows. -/
theorem Capped.windowSize_le (h : Capped w s) (hpos : 0 < w.size) : s.windowSize ≤ w.size := by
  unfold Scene.windowSize
  split
  · rename_i v hv
    rw [h.window v hv]
  · exact hpos

/-- A deed leaves a static window alone, and a request finds room in it. -/
theorem Capped.deed (h : Capped w s) (hstatic : w.rule = .static) (hpos : 0 < w.size)
    (ht : s.transfer = some t) (hdeed : Deed s t gain mid) : Capped w mid := by
  have hbefore := h.inFlight t ht
  -- A static window stays the same under every change.
  have hgrow : w.grow = w := Window.step_of_static hstatic .grow
  have hshrink : ∀ n, w.shrink.setThreshold n = w := fun n => by
    have hshrunk : w.shrink = w := Window.step_of_static hstatic .shrink
    rw [hshrunk]
    exact Window.step_of_static hstatic (.setThreshold n)
  have hgrown : ∀ v, s.window.map Window.grow = some v → v = w := by
    intro v hv
    obtain ⟨v₀, hv₀, rfl⟩ := Option.map_eq_some_iff.mp hv
    rw [h.window v₀ hv₀, hgrow]
  have hone : ∀ {u : Transfer}, u.chunks.inFlight ≤ w.size →
      ∀ v, some u = some v → v.chunks.inFlight ≤ w.size := by
    intro u hu v hv
    exact Option.some.inj hv ▸ hu
  cases hdeed with
  | nothing => exact h
  | duplicate => exact ⟨h.fresh, h.window, hone hbefore⟩
  | setback hchunks _ hwindow =>
      refine ⟨h.fresh, ?_, hone ((ChunkTable.inFlight_timeOut? hchunks).trans hbefore)⟩
      rcases hwindow with rfl | rfl
      · exact h.window
      · intro v hv
        obtain ⟨v₀, hv₀, rfl⟩ := Option.map_eq_some_iff.mp hv
        rw [h.window v₀ hv₀, hshrink]
  | part _ _ hwindow =>
      refine ⟨h.fresh, ?_, hone ((ChunkTable.inFlight_receive _ _).trans hbefore)⟩
      rcases hwindow with rfl | rfl
      · exact h.window
      · exact hgrown
  | length _ _ hwindow =>
      refine ⟨h.fresh, ?_, hone ((ChunkTable.inFlight_resize _ _).trans
        ((ChunkTable.inFlight_receive _ _).trans hbefore))⟩
      rcases hwindow with rfl | rfl
      · exact h.window
      · exact hgrown
  | request _ hroom _ hchunks =>
      refine ⟨h.fresh, h.window, hone ?_⟩
      -- A request is made only while the window has room.
      rw [ChunkTable.inFlight_request? hchunks]
      exact Nat.lt_of_lt_of_le hroom (h.windowSize_le hpos)
  | reject => exact ⟨h.fresh, h.window, hone (Nat.zero_le _)⟩

/-- What follows a deed sends nothing. -/
theorem Capped.sequel (h : Capped w mid) (hu : mid.transfer = some u)
    (hsequel : Sequel mid s') : Capped w s' := by
  obtain ⟨-, hfresh, hwindow, -, htransfer⟩ := hsequel.keeps
  obtain ⟨drained, hs'⟩ := htransfer u hu
  refine ⟨hfresh.trans h.fresh, hwindow ▸ h.window, fun v hv => ?_⟩
  obtain rfl := Option.some.inj (hs'.symm.trans hv)
  exact h.inFlight u hu

/-- **One turn** keeps a static window, unless another one is installed. -/
theorem Capped.turn (h : Capped w f.scene) (hstatic : w.rule = .static) (hpos : 0 < w.size)
    (hcall : ∀ v sound, call = .installWindow v sound → v = w)
    (hturn : Turn d f call d' s') : Capped w s' := by
  cases hturn with
  | nothing => exact h
  | @started now segment _ _ hdeed =>
      have hopened : Capped w (f.opened now segment).scene := by
        refine ⟨h.fresh, fun v hv => ?_, fun t ht => ?_⟩
        · obtain rfl : f.window.getD f.freshWindow = v := Option.some.inj hv
          cases hheld : f.window with
          | none => exact h.fresh
          | some v₀ => exact h.window v₀ hheld
        · obtain rfl : f.untouched now segment = t := Option.some.inj ht
          exact Nat.zero_le _
      exact hopened.deed hstatic hpos rfl hdeed
  | woken _ ht hdeed hsequel =>
      obtain ⟨u, hu, -⟩ := hdeed.open_or_rejected ht
      exact (h.deed hstatic hpos ht hdeed).sequel hu hsequel
  | aborted =>
      refine ⟨h.fresh, h.window, fun u hu => ?_⟩
      obtain ⟨t, -, rfl⟩ := Option.map_eq_some_iff.mp hu
      exact Nat.zero_le _
  | reset => exact ⟨h.fresh, h.window, fun t ht => nomatch ht⟩
  | released => exact ⟨h.fresh, fun _ hv => (nomatch hv), h.inFlight⟩
  | @installed v sound =>
      refine ⟨h.fresh, fun v' hv' => ?_, h.inFlight⟩
      obtain rfl : v = v' := Option.some.inj hv'
      exact hcall v sound rfl
  | _ => exact ⟨h.fresh, h.window, h.inFlight⟩

/-- The window that a new fetcher starts with has the rule of its settings. -/
theorem rule_ofSettings {id : Nat} (hnew : ofSettings id settings = .ok f) :
    f.freshWindow.rule = settings.window.rule := by
  obtain ⟨window, hwindow, h⟩ := Checked.bind_eq_ok_iff.mp hnew
  obtain rfl := Except.ok.inj h
  obtain ⟨packet, -, hwindow⟩ := Checked.bind_eq_ok_iff.mp hwindow
  obtain ⟨bits, -, hwindow⟩ := Checked.bind_eq_ok_iff.mp hwindow
  obtain rfl := Except.ok.inj hwindow
  rfl

/-- Calls keep a static window, and a bound for the requests that are out. -/
theorem follow_capped {id : Nat} (hnew : ofSettings id settings = .ok f)
    (hstatic : settings.window.rule = .static) {calls : List Call}
    (hcalls : ∀ w sound, .installWindow w sound ∈ calls → w = f.freshWindow)
    (hg : f.follow {} calls = .ok (d, g)) : Capped f.freshWindow g.scene := by
  have horder := inOrder_ofSettings hnew
  have hrule : f.freshWindow.rule = .static := (rule_ofSettings hnew).trans hstatic
  have hstart : Capped f.freshWindow f.scene := by
    rw [scene_ofSettings hnew]
    exact ⟨rfl, fun w hw => (Option.some.inj hw).symm, fun t ht => nomatch ht⟩
  refine follow_preserves (fun _ g => Capped f.freshWindow g.scene)
    (fun call => ∀ w sound, call = .installWindow w sound → w = f.freshWindow) ?_ ?_ horder
    hstart hg
  · intro d g call h horder' _ hcall hh hcapped
    exact hcapped.turn hrule horder.equipped.fresh.size hcall (perform_turn horder' (d := d) hh)
  · rintro call hmem w sound rfl
    exact hcalls w sound hmem

/-! ### The limit of attempts -/

/-- A tick that would request a chunk too often gives the transfer up. -/
theorem onTick_exhausted {now chunk limit : Nat} (ht : f.transfer = some t)
    (hphase : f.phase = .downloading) (hroom : t.chunks.inFlight < f.windowSize)
    (hneeded : t.chunks.nextNeeded = some chunk) (hlimit : f.settings.retryLimit = some limit)
    (hattempts : limit < t.chunks.attemptsOf chunk) : f.onTick now = f.reject := by
  have hrefused : f.mayRequest (t.chunks.attemptsOf chunk) = false := by
    simp [mayRequest, hlimit, hattempts]
  have hrejected : f.request now chunk = f.reject := by
    unfold request
    simp [ht, hrefused]
  unfold onTick
  simp only [ht, Nat.not_le.mpr hroom, if_false, hneeded]
  rw [hrejected]
  exact scheduleNext_of_phase_ne (by simp [phase_reject hphase]) now

/-- What can be said about the requests of a fetcher. -/
structure Discipline (settings : FetchSettings) (d : Diary) (g : Fetcher) : Prop where
  /-- The next call sends nothing, or one interest for a chunk that has to be requested, after which
  no more requests are out than the window allows. -/
  sends : ∀ call h, g.perform call = .ok h →
    g.sends h = [] ∨ ∃ t u chunk, SendsOne g call h t u chunk
  limited : ∀ limit, settings.retryLimit = some limit → ∀ chunk, d.requests chunk ≤ limit + 1
  /-- A tick at which a chunk would be requested once more gives the transfer up and says so, for
  the first and only time. -/
  exhausted : ∀ limit now t chunk, settings.retryLimit = some limit → g.phase = .downloading →
    g.transfer = some t → t.chunks.inFlight < g.windowSize → t.chunks.nextNeeded = some chunk →
    d.requests chunk = limit + 1 → ∃ h, g.perform (.wake now .tick) = .ok h ∧
      h.phase = .aborted ∧ g.sends h = [] ∧ (d.told ++ h.events).count .rejected = 1

/-- A tick that comes to a chunk requested as often as it may be gives the transfer up, and the
owner is told once. -/
theorem Requests.exhausted (h : Requests d g.scene) (htells : Tells d g.scene)
    {now chunk limit : Nat} (hlimit : g.settings.retryLimit = some limit)
    (hphase : g.phase = .downloading) (ht : g.transfer = some t)
    (hroom : t.chunks.inFlight < g.windowSize) (hneeded : t.chunks.nextNeeded = some chunk)
    (hrequests : d.requests chunk = limit + 1) :
    ∃ h, g.perform (.wake now .tick) = .ok h ∧
      h.phase = .aborted ∧ g.sends h = [] ∧ (d.told ++ h.events).count .rejected = 1 := by
  have hinside : chunk < t.chunks.size := by
    rcases ChunkTable.of_nextNeeded hneeded with hs | hs <;>
      exact ChunkTable.lt_size_of_status? hs
  have hattempts := (h.counts t ht).inside hinside
  -- The tick itself is over before the chunk is looked at.
  have htick : ({ g with pacing := none } : Fetcher).onTick now =
      ({ g with pacing := none } : Fetcher).reject :=
    onTick_exhausted ht hphase hroom hneeded hlimit (by omega)
  refine ⟨({ g with pacing := none } : Fetcher).reject, ?_, ?_, ?_, ?_⟩
  · have hbusy : g.isBusy = true := by simp [isBusy, hphase]
    rw [perform, if_pos hbusy]
    exact congrArg Except.ok htick
  · exact phase_reject hphase
  · exact List.drop_length
  · -- A transfer that runs has not told how it has ended.
    have htold := htells.events
    obtain ⟨hends, -, -⟩ := htells.standing.of_running hphase
    rw [hends, List.map_nil, List.append_nil] at htold
    rw [scene_events] at htold
    show (d.told ++ (g.events ++ [FetchEvent.rejected])).count FetchEvent.rejected = 1
    rw [← List.append_assoc, htold, List.count_append]
    unfold Scene.drainNews
    split <;> rfl

/-- **Requests are disciplined.** Take a new fetcher and any calls on it, which do not fail if they
are `Workable`. Whatever it does next, it sends at most one interest, for a chunk that has to be
requested and within the window, and in one transfer it requests no chunk too often. With a static
window, no more requests are out at any time than it allows, as long as no other window is
installed. -/
theorem request_discipline {id : Nat} (hnew : ofSettings id settings = .ok f) (calls : List Call) :
    (Workable settings calls → ∃ d g, f.follow {} calls = .ok (d, g)) ∧
      ∀ d g, f.follow {} calls = .ok (d, g) → Discipline settings d g ∧
        (settings.window.rule = .static →
          (∀ w sound, .installWindow w sound ∈ calls → w = f.freshWindow) →
          ∀ t, g.transfer = some t → t.chunks.inFlight ≤ f.freshWindow.size ∧
            ∀ w, g.window = some w → w = f.freshWindow) := by
  have horder := inOrder_ofSettings hnew
  refine ⟨fun h => h.follow_ok hnew, fun d g hg => ⟨?_, ?_⟩⟩
  · have horder' := follow_inOrder horder hg
    have hrequests := follow_requests hnew hg
    have hsettings : g.settings = settings := horder'.equipped.settings
    refine ⟨fun call h hcall => perform_sends horder' hcall, ?_, ?_⟩
    · rw [← hsettings]
      exact hrequests.limited
    · intro limit now t chunk hlimit hphase ht hroom hneeded hexhausted
      exact hrequests.exhausted (follow_tells hnew hg) (hsettings.symm ▸ hlimit) hphase ht hroom
        hneeded hexhausted
  · intro hstatic hcalls t ht
    have hcapped := follow_capped hnew hstatic hcalls hg
    exact ⟨hcapped.inFlight t ht, hcapped.window⟩

/-- A static window for two requests, and no chunk may be requested a second time. -/
def strictSettings : FetchSettings :=
  { chunkPayload := 2, chunkGuess := 4, retryLimit := some 0
    window := { rule := .static, initialSize := some 2 } }

/-- Chunks 0 and 1 are requested, there is no room for chunk 2, and chunk 0 times out. -/
def strictCalls : List Call :=
  [.start 0 sampleSegment, .wake 1 .tick, .wake 2 .tick, .wake 600 (.timer 0)]

/-- The window of two was never exceeded, and the next tick gives the transfer up. -/
theorem request_discipline_sample :
    Workable strictSettings strictCalls ∧ ∃ f d g t h, ofSettings 0 strictSettings = .ok f ∧
      f.follow {} strictCalls = .ok (d, g) ∧ d.requests 0 = 1 ∧ g.transfer = some t ∧
      f.freshWindow.size = 2 ∧ t.chunks.inFlight ≤ 2 ∧ g.perform (.wake 700 .tick) = .ok h ∧
      h.phase = .aborted ∧ g.sends h = [] ∧ (d.told ++ h.events).count .rejected = 1 := by
  have hworkable : Workable strictSettings strictCalls :=
    ⟨by decide, RoundTrip.isPart_default, by decide⟩
  have hvalue : ((ofSettings 0 strictSettings).toOption.bind fun f =>
      (f.follow {} strictCalls).toOption.bind fun r => r.2.transfer.map fun t =>
        (f.freshWindow.size, r.1.requests 0, r.2.phase, decide (t.chunks.inFlight < r.2.windowSize),
          t.chunks.nextNeeded)) = some (2, 1, .downloading, true, some 0) := by decide +kernel
  obtain ⟨f, hnew, hvalue⟩ := Checked.exists_of_bind_toOption hvalue
  obtain ⟨hsucceeds, hdisciplined⟩ := request_discipline hnew strictCalls
  obtain ⟨d, g, hg⟩ := hsucceeds hworkable
  rw [hg] at hvalue
  obtain ⟨t, ht, hvalues⟩ := Option.map_eq_some_iff.mp hvalue
  simp only [Prod.mk.injEq, decide_eq_true_eq] at hvalues
  obtain ⟨hsize, hrequests, hphase, hroom, hneeded⟩ := hvalues
  obtain ⟨hdiscipline, hcapped⟩ := hdisciplined d g hg
  obtain ⟨h, htick, haborted, hnothing, hcount⟩ :=
    hdiscipline.exhausted 0 700 t 0 rfl hphase ht hroom hneeded hrequests
  -- No window is installed in these calls.
  have hinFlight := (hcapped rfl (fun w sound hmem => by simp [strictCalls] at hmem) t ht).1
  rw [hsize] at hinFlight
  exact ⟨hworkable, f, d, g, t, h, hnew, hg, hrequests, ht, hsize, hinFlight, htick, haborted,
    hnothing, hcount⟩

end Fetcher

end LayerCast
