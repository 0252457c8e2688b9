import LayerCast.Proofs.Transfer.Books
import LayerCast.Proofs.Transfer.Clockwork
import LayerCast.Proofs.Transfer.Completion

/-!
# `LayerCast.Proofs.Transfer.Calls`: the life of a fetcher

The owner of a fetcher starts transfers, gives them up, takes what is there and moves windows about,
in any order, and in between a running transfer is woken (`Call`). `performAll_inOrder` carries
`Fetcher.InOrder` through such a life, which begins with a fetcher that has nothing to do. Where
something has to be known of a whole life, each call is noted (`Fetcher.watch`), and what every call
keeps of the fetcher and the notes holds in the end (`watch_preserves`).

Two results are read off it. `timers_match`: a chunk has one timer if its request is out and else
none, and without a transfer nothing is armed, so that no timer outlives what it was armed for.
`always_wakes`: a transfer never waits for nothing while a chunk has to be requested.
-/

set_option autoImplicit false

namespace LayerCast

namespace Fetcher

/-- What the owner of a fetcher can do, and what can happen to the fetcher. -/
inductive Call where
  /-- A segment is asked for, which is refused while a transfer runs. -/
  | start (now : Nat) (segment : Segment)
  /-- The transfer is given up. -/
  | abort
  /-- The transfer is dropped. -/
  | reset
  /-- Something wakes the fetcher. Only a running transfer waits to be woken. -/
  | wake (now : Nat) (w : Wake)
  /-- The oldest event is taken. -/
  | takeEvent
  /-- The delivery is taken. -/
  | takeCompleted
  /-- The face takes the interests, or turns out closed. -/
  | sent (closed : Bool)
  /-- The window is taken away. -/
  | releaseWindow
  /-- A window is handed over. -/
  | installWindow (w : Window) (sound : w.Sound)

/-- Carries out a call. -/
def perform (f : Fetcher) : Call → Checked Fetcher
  | .start now segment => .ok ((f.start? now segment).getD f)
  | .abort => .ok f.abort
  | .reset => .ok f.reset
  | .wake now w => if f.isBusy then f.handle now w else .ok f
  | .takeEvent => .ok ((f.takeEvent?.map Prod.snd).getD f)
  | .takeCompleted => .ok f.takeCompleted.2
  | .sent closed => .ok { f with outbox := [], faceClosed := f.faceClosed || closed }
  | .releaseWindow => .ok f.releaseWindow.2
  | .installWindow w _ => .ok (f.installWindow w)

/-- When a call wakes a fetcher. Nothing else that can be done to one depends on the moment. -/
def Call.moment : Call → Nat
  | .wake now _ => now
  | _ => 0

/-- Settings and calls with which nothing fails. -/
structure Workable (settings : FetchSettings) (calls : List Call) : Prop where
  /-- Data chunks have bytes, so that their number can be told from a length. -/
  payload : 0 < settings.chunkPayload
  /-- A sample goes into the round trip estimate with a part of its weight. -/
  gain : Binary64.IsPart settings.roundTrip.gain
  /-- No round trip takes longer than estimates are followed. -/
  clock : ∀ call ∈ calls, call.moment ≤ RoundTrip.horizon

/-- The calls that neither start nor end a transfer, and do not wake it either. -/
def Call.IsErrand : Call → Prop
  | .start _ _ | .abort | .reset | .wake _ _ => False
  | _ => True

/-- Carries out calls one after another. -/
def performAll (f : Fetcher) : List Call → Checked Fetcher
  | [] => .ok f
  | call :: rest => do
    let f ← f.perform call
    f.performAll rest

/-- Carries out calls one after another, and notes for each of them from which fetcher to which one
it has led. -/
def watch {β : Type} (note : β → Fetcher → Call → Fetcher → β) (f : Fetcher) (b : β) :
    List Call → Checked (β × Fetcher)
  | [] => .ok (b, f)
  | call :: rest => do
    let g ← f.perform call
    g.watch note (note b f call g) rest

section
variable {s : FetchSettings} {f g : Fetcher}

/-! ### One call -/

/-- What is in order knows its settings and its window. -/
theorem InOrder.equipped (h : f.InOrder s) : f.Equipped s := by
  rcases h with hstill | ⟨t, hclocked, -⟩
  · exact hstill.toEquipped
  · exact hclocked.toEquipped

/-- A fetcher in order that is busy has a transfer, with what has to be armed for it armed. -/
theorem InOrder.of_busy (h : f.InOrder s) (hphase : f.phase = .downloading) :
    ∃ t, f.Clocked s t ∧ f.Wakes t :=
  h.resolve_left fun hstill => hstill.phase hphase

/-- A fetcher in order that is not busy has nothing armed. -/
theorem InOrder.of_not_busy (h : f.InOrder s) (hphase : f.phase ≠ .downloading) : f.Still s :=
  h.resolve_right fun ⟨_, hclocked, _⟩ => hphase hclocked.phase

/-- What a fetcher has for its owner and for the face is not armed. -/
theorem InOrder.withNews (h : f.InOrder s) (events : List FetchEvent)
    (completed : Option Delivery) (faceClosed : Bool) (outbox : List Interest) :
    ({ f with events, completed, faceClosed, outbox } : Fetcher).InOrder s := by
  rcases h with hstill | ⟨t, hclocked, hwakes⟩
  · exact .inl { hstill with }
  · exact .inr ⟨t, { hclocked with }, hwakes⟩

/-- A window may be exchanged for another one that lets a request out. -/
theorem InOrder.withWindow (h : f.InOrder s) {window : Option Window}
    (hsound : ∀ w, window = some w → w.Sound) : ({ f with window } : Fetcher).InOrder s := by
  rcases h with hstill | ⟨t, hclocked, hwakes⟩
  · exact .inl { hstill with window := hsound }
  · exact .inr ⟨t, { hclocked with window := hsound }, hwakes⟩

/-- A start leaves a fetcher in order, even where it is refused. -/
theorem start?_inOrder (h : f.InOrder s) (now : Nat) (segment : Segment) :
    ((f.start? now segment).getD f).InOrder s := by
  unfold start?
  split
  · exact h
  · exact begin_inOrder h.equipped now segment

/-- **One call** on a fetcher that is in order leaves it in order. -/
theorem perform_inOrder (h : f.InOrder s) {call : Call} (hg : f.perform call = .ok g) :
    g.InOrder s := by
  -- Handling is the work of the wakes. All other calls start, end or leave the transfer alone.
  cases call with
  | wake now w =>
      simp only [perform] at hg
      split at hg
      · rename_i hbusy
        exact handle_inOrder h hbusy hg
      · obtain rfl := Except.ok.inj hg
        exact h
  | start now segment =>
      obtain rfl := Except.ok.inj hg
      exact start?_inOrder h now segment
  | abort =>
      obtain rfl := Except.ok.inj hg
      exact .inl (still_abort h.equipped)
  | reset =>
      obtain rfl := Except.ok.inj hg
      exact .inl (still_reset h.equipped)
  | takeEvent =>
      obtain rfl := Except.ok.inj hg
      unfold takeEvent?
      split
      · exact h
      · exact h.withNews _ f.completed f.faceClosed f.outbox
  | takeCompleted =>
      obtain rfl := Except.ok.inj hg
      exact h.withNews f.events none f.faceClosed f.outbox
  | sent closed =>
      obtain rfl := Except.ok.inj hg
      exact h.withNews f.events f.completed _ []
  | releaseWindow =>
      obtain rfl := Except.ok.inj hg
      exact h.withWindow fun _ hw => nomatch hw
  | installWindow w sound =>
      obtain rfl := Except.ok.inj hg
      refine h.withWindow fun v hv => ?_
      obtain rfl := Option.some.inj hv
      exact sound

/-- An errand leaves the transfer alone, and takes the delivery at most. -/
theorem perform_errand {call : Call} (hg : f.perform call = .ok g) (hcall : call.IsErrand) :
    g.phase = f.phase ∧ g.transfer = f.transfer ∧ g.roundTrip = f.roundTrip ∧
      ∀ x, g.completed = some x → f.completed = some x := by
  cases call with
  | start now segment => exact hcall.elim
  | abort => exact hcall.elim
  | reset => exact hcall.elim
  | wake now w => exact hcall.elim
  | takeEvent =>
      obtain rfl := Except.ok.inj hg
      unfold takeEvent?
      split <;> exact ⟨rfl, rfl, rfl, fun _ hx => hx⟩
  | takeCompleted =>
      obtain rfl := Except.ok.inj hg
      exact ⟨rfl, rfl, rfl, fun _ hx => nomatch hx⟩
  | _ =>
      obtain rfl := Except.ok.inj hg
      exact ⟨rfl, rfl, rfl, fun _ hx => hx⟩

/-- A start is refused, or begins a transfer. -/
theorem start_cases {now : Nat} {segment : Segment}
    (hg : f.perform (.start now segment) = .ok g) :
    f.isBusy = true ∧ g = f ∨ f.isBusy = false ∧ g = f.begin now segment := by
  obtain rfl := Except.ok.inj hg
  cases hbusy : f.isBusy with
  | true =>
      have hrefused : f.start? now segment = none := if_pos hbusy
      rw [hrefused]
      exact .inl ⟨rfl, rfl⟩
  | false =>
      have hstarted : f.start? now segment = some (f.begin now segment) := by
        rw [start?, hbusy]
        rfl
      rw [hstarted]
      exact .inr ⟨rfl, rfl⟩

/-- A wake finds nothing that runs, or is carried out. -/
theorem wake_cases (h : f.InOrder s) {now : Nat} {w : Wake}
    (hg : f.perform (.wake now w) = .ok g) :
    f.isBusy = false ∧ g = f ∨
      f.isBusy = true ∧ f.phase = .downloading ∧ (∃ t, f.transfer = some t) ∧
        f.handle now w = .ok g := by
  simp only [perform] at hg
  cases hbusy : f.isBusy with
  | true =>
      have hphase : f.phase = .downloading := by simpa [isBusy] using hbusy
      obtain ⟨t, hclocked, -⟩ := h.of_busy hphase
      rw [if_pos hbusy] at hg
      exact .inr ⟨rfl, hphase, ⟨t, hclocked.transfer⟩, hg⟩
  | false =>
      rw [hbusy] at hg
      exact .inl ⟨rfl, (Except.ok.inj hg).symm⟩

/-- No call fails if data chunks have bytes and the estimate is tame, which it stays. -/
theorem perform_ok (h : f.InOrder s) (hpayload : 0 < s.chunkPayload) (htame : f.roundTrip.Tame)
    {call : Call} (hclock : call.moment ≤ RoundTrip.horizon) :
    ∃ g, f.perform call = .ok g ∧ g.roundTrip.Tame := by
  -- Errands never fail, and do not touch the estimate.
  have herrand (hcall : call.IsErrand) (g : Fetcher) (hg : f.perform call = .ok g) :
      ∃ g, f.perform call = .ok g ∧ g.roundTrip.Tame :=
    ⟨g, hg, (perform_errand hg hcall).2.2.1.symm ▸ htame⟩
  cases call with
  | wake now w =>
      simp only [perform]
      split
      · rename_i hbusy
        have hphase : f.phase = .downloading := by simpa [isBusy] using hbusy
        obtain ⟨t, hclocked, -⟩ := h.of_busy hphase
        obtain ⟨g, hg⟩ := handle_ok (h.equipped.settings.symm ▸ hpayload) htame hclock w
        exact ⟨g, hg, handle_tame hclocked.transfer htame hclock hg⟩
      · exact ⟨f, rfl, htame⟩
  | start now segment =>
      refine ⟨_, rfl, ?_⟩
      unfold start?
      split
      · exact htame
      · exact begin_tame htame now segment
  | abort => exact ⟨_, rfl, htame⟩
  | reset => exact ⟨_, rfl, htame.forget⟩
  | takeEvent => exact herrand trivial _ rfl
  | takeCompleted => exact herrand trivial _ rfl
  | sent closed => exact herrand trivial _ rfl
  | releaseWindow => exact herrand trivial _ rfl
  | installWindow w sound => exact herrand trivial _ rfl

/-! ### A whole life -/

/-- A new fetcher has nothing armed. -/
theorem inOrder_ofSettings {id : Nat} (h : ofSettings id s = .ok f) : f.InOrder s := by
  obtain ⟨window, hwindow, h⟩ := Checked.bind_eq_ok_iff.mp h
  obtain rfl := Except.ok.inj h
  have hsound := Window.sound_ofSettings hwindow
  refine .inl ⟨⟨rfl, hsound, ?_⟩, by simp, rfl, rfl⟩
  intro w hw
  obtain rfl := Option.some.inj hw
  exact hsound

/-- **Calls** on a fetcher that is in order leave it in order. -/
theorem performAll_inOrder (calls : List Call) (h : f.InOrder s)
    (hg : f.performAll calls = .ok g) : g.InOrder s := by
  -- Induction on the calls, from any fetcher that is in order.
  induction calls generalizing f with
  | nil =>
      obtain rfl := Except.ok.inj hg
      exact h
  | cons call rest ih =>
      obtain ⟨f', hf', hrest⟩ := Checked.bind_eq_ok_iff.mp hg
      exact ih (perform_inOrder h hf') hrest

/-- The estimate of a new fetcher is tame if the gain is a part of 1. -/
theorem tame_of_new {id : Nat} (hnew : ofSettings id s = .ok f)
    (hgain : Binary64.IsPart s.roundTrip.gain) : f.roundTrip.Tame := by
  obtain ⟨window, -, h⟩ := Checked.bind_eq_ok_iff.mp hnew
  obtain rfl := Except.ok.inj h
  exact RoundTrip.tame_ofSettings hgain

/-- **No calls fail** if data chunks have bytes and the estimate is tame, which it stays. -/
theorem performAll_ok {calls : List Call} (h : f.InOrder s) (hpayload : 0 < s.chunkPayload)
    (htame : f.roundTrip.Tame) (hclock : ∀ call ∈ calls, call.moment ≤ RoundTrip.horizon) :
    ∃ g, f.performAll calls = .ok g ∧ g.roundTrip.Tame := by
  induction calls generalizing f with
  | nil => exact ⟨f, rfl, htame⟩
  | cons call rest ih =>
      obtain ⟨f', hf', htame'⟩ := perform_ok h hpayload htame (hclock call List.mem_cons_self)
      obtain ⟨g, hg, hgtame⟩ := ih (perform_inOrder h hf') htame'
        fun c hc => hclock c (List.mem_cons_of_mem call hc)
      exact ⟨g, Checked.bind_eq_ok_iff.mpr ⟨f', hf', hg⟩, hgtame⟩

/-- Workable calls on a new fetcher do not fail. -/
theorem Workable.performAll_ok {calls : List Call} (h : Workable s calls) {id : Nat}
    (hnew : ofSettings id s = .ok f) : ∃ g, f.performAll calls = .ok g ∧ g.roundTrip.Tame :=
  Fetcher.performAll_ok (inOrder_ofSettings hnew) h.payload (tame_of_new hnew h.gain) h.clock

/-! ### A life that is watched -/

section
variable {β : Type} {note : β → Fetcher → Call → Fetcher → β} {b b' : β}

/-- Whether calls are watched or not, they do the same. -/
theorem performAll_eq_ok_iff_watch (calls : List Call) (b : β) :
    f.performAll calls = .ok g ↔ ∃ b', f.watch note b calls = .ok (b', g) := by
  -- What is noted changes with every call, so that the notes have to be any.
  induction calls generalizing f b with
  | nil =>
      constructor
      · intro h
        obtain rfl := Except.ok.inj h
        exact ⟨b, rfl⟩
      · rintro ⟨b', h⟩
        exact congrArg Except.ok (Prod.mk.inj (Except.ok.inj h)).2
  | cons call rest ih =>
      constructor
      · intro h
        obtain ⟨f', hf', hrest⟩ := Checked.bind_eq_ok_iff.mp h
        obtain ⟨b', hb'⟩ := (ih (note b f call f')).mp hrest
        exact ⟨b', Checked.bind_eq_ok_iff.mpr ⟨f', hf', hb'⟩⟩
      · rintro ⟨b', h⟩
        obtain ⟨f', hf', hrest⟩ := Checked.bind_eq_ok_iff.mp h
        exact Checked.bind_eq_ok_iff.mpr ⟨f', hf', (ih (note b f call f')).mpr ⟨b', hrest⟩⟩

/-- Calls on a fetcher that is in order leave it in order. -/
theorem watch_inOrder {calls : List Call} (h : f.InOrder s)
    (hg : f.watch note b calls = .ok (b', g)) : g.InOrder s :=
  performAll_inOrder calls h ((performAll_eq_ok_iff_watch calls b).mpr ⟨b', hg⟩)

/-- **The run lemma.** What each call of some kind preserves holds after all such calls. -/
theorem watch_preserves (holds : β → Fetcher → Prop) (kind : Call → Prop)
    (hstep : ∀ b f call g, f.InOrder s → g.InOrder s → kind call → f.perform call = .ok g →
      holds b f → holds (note b f call g) g)
    {calls : List Call} (hkind : ∀ call ∈ calls, kind call) (horder : f.InOrder s)
    (hf : holds b f) (hg : f.watch note b calls = .ok (b', g)) : holds b' g := by
  -- Induction on the calls, from any fetcher in order and anything that was noted.
  induction calls generalizing f b with
  | nil =>
      obtain ⟨rfl, rfl⟩ := Prod.mk.inj (Except.ok.inj hg)
      exact hf
  | cons call rest ih =>
      obtain ⟨f', hf', hrest⟩ := Checked.bind_eq_ok_iff.mp hg
      have horder' := perform_inOrder horder hf'
      refine ih (fun c hc => hkind c (List.mem_cons_of_mem _ hc)) horder' ?_ hrest
      exact hstep b f call f' horder horder' (hkind call List.mem_cons_self) hf' hf

end

/-! ### Timers -/

/-- The chunks whose requests are out have one timer each, and no other chunk has one. -/
theorem Clocked.count_chunks {t : Transfer} (h : f.Clocked s t) (chunk : Nat) :
    f.timers.chunks.count chunk = if t.chunks.status? chunk = some .requested then 1 else 0 := by
  rw [h.keyed.nodup_chunks.count]
  exact if_congr (h.armed chunk) rfl rfl

/-- Only a chunk that has a timer is due. -/
theorem mem_chunks_of_due? {now chunk : Nat} (h : f.due? now = some (.timer chunk)) :
    chunk ∈ f.timers.chunks := by
  unfold due? at h
  split at h
  · rename_i expired hexpired
    obtain rfl : expired = chunk := Wake.timer.inj (Option.some.inj h)
    exact Timers.mem_chunks_of_expired? hexpired
  · split at h
    · split at h <;> cases h
    · cases h

/-- A request arms the timer of its chunk and no other. If none may be sent, the timers stay or
are all gone. -/
theorem timers_request (f : Fetcher) (now chunk : Nat) :
    (f.request now chunk).timers = f.timers.arm chunk (Instant.after now f.roundTrip.timer) ∨
      (f.request now chunk).timers = f.timers ∨ (f.request now chunk).timers = {} := by
  unfold request
  split
  · exact .inr (.inl rfl)
  · split
    · exact .inr (.inr rfl)
    · split
      · exact .inr (.inl rfl)
      · exact .inl rfl

/-- A transfer starts with no timer but that of its first request. -/
theorem timers_begin {now : Nat} {segment : Segment} {timer : Timer}
    (htimer : timer ∈ (f.begin now segment).timers.queue) :
    timer = ⟨0, 0, Instant.after now f.roundTrip.timer⟩ := by
  have hbegin : (f.begin now segment).timers = ((f.opened now segment).request now 0).timers := rfl
  have hopened : (f.opened now segment).timers = {} := rfl
  rw [hbegin] at htimer
  rcases timers_request (f.opened now segment) now 0 with h | h | h
  · rw [h, hopened] at htimer
    exact List.mem_singleton.mp htimer
  · rw [h, hopened] at htimer
    cases htimer
  · rw [h] at htimer
    cases htimer

/-- **Timers follow requests.** Take a new fetcher and any calls on it. While a transfer runs, a
chunk has exactly one timer if its request is out, and else none. Otherwise neither a timer nor the
pacing tick is armed. So a timer expires only for a chunk whose request is out, and a transfer that
starts later finds no timer but its own. -/
theorem timers_match {id : Nat} {settings : FetchSettings} {calls : List Call}
    (hnew : ofSettings id settings = .ok f) (hcalls : f.performAll calls = .ok g) :
    (g.phase = .downloading → ∃ t, g.transfer = some t ∧ ∀ chunk, g.timers.chunks.count chunk =
        if t.chunks.status? chunk = some .requested then 1 else 0) ∧
      (g.phase ≠ .downloading → g.timers.queue = [] ∧ g.pacing = none) ∧
      (∀ now chunk, g.due? now = some (.timer chunk) → g.phase = .downloading ∧
        ∃ t, g.transfer = some t ∧ t.chunks.status? chunk = some .requested) ∧
      ∀ now segment h, g.start? now segment = some h → ∀ timer ∈ h.timers.queue,
        timer = ⟨0, 0, Instant.after now g.roundTrip.timer⟩ := by
  have hg : g.InOrder settings := performAll_inOrder calls (inOrder_ofSettings hnew) hcalls
  refine ⟨?running, ?still, ?expired, ?later⟩
  case running =>
    intro hphase
    obtain ⟨t, hclocked, -⟩ := hg.of_busy hphase
    exact ⟨t, hclocked.transfer, hclocked.count_chunks⟩
  case still =>
    intro hphase
    have hstill := hg.of_not_busy hphase
    exact ⟨congrArg Timers.queue hstill.timers, hstill.pacing⟩
  case expired =>
    intro now chunk hdue
    -- Only what is armed falls due.
    have harmed : chunk ∈ g.timers.chunks := mem_chunks_of_due? hdue
    by_cases hphase : g.phase = .downloading
    · obtain ⟨t, hclocked, -⟩ := hg.of_busy hphase
      exact ⟨hphase, t, hclocked.transfer, (hclocked.armed chunk).mp harmed⟩
    · rw [(hg.of_not_busy hphase).timers] at harmed
      cases harmed
  case later =>
    intro now segment h hstart timer htimer
    unfold start? at hstart
    split at hstart
    · cases hstart
    · obtain rfl := Option.some.inj hstart
      exact timers_begin htimer

/-- Data chunks of two bytes, and a guess of four chunks. -/
def lifeSettings : FetchSettings := { chunkPayload := 2, chunkGuess := 4 }

/-- Data for a chunk of the sample segment. -/
def dataCall (now chunk : Nat) (bytes : ByteArray) : Call :=
  .wake now (.reply ⟨⟨sampleSegment.name, chunk⟩, .data bytes⟩)

/-- Every chunk is requested. Chunk 1 times out, is requested again, times out once more and then
arrives. Chunk 0 tells that there are three chunks, so that the request for chunk 3 is dropped. The
tick that was set for chunk 1 comes last and finds nothing to request. -/
def lifeCalls : List Call :=
  [.start 0 sampleSegment, .sent false, .wake 1 .tick, .wake 2 .tick, .wake 3 .tick,
    .wake 600 (.timer 1), .wake 700 .tick, .wake 800 (.timer 1), dataCall 900 1 ⟨#[7, 7]⟩,
    dataCall 950 0 ⟨#[0, 0, 0, 4]⟩, .wake 960 .tick]

/-- Calls that wake a fetcher with these settings in the first second do not fail. -/
theorem workable_life {calls : List Call} (h : ∀ call ∈ calls, call.moment ≤ 1000) :
    Workable lifeSettings calls where
  payload := by decide
  gain := RoundTrip.isPart_default
  clock := fun call hcall => Nat.le_trans (h call hcall) (by decide)

/-- At the end of the sample calls only chunk 2 is out. -/
theorem performAll_lifeCalls :
    ∃ f g t, ofSettings 0 lifeSettings = .ok f ∧ f.performAll lifeCalls = .ok g ∧
      g.phase = .downloading ∧ g.pacing = none ∧ g.transfer = some t ∧
      t.chunks.status = #[.received, .received, .requested] := by
  have hvalue : ((ofSettings 0 lifeSettings).toOption.bind fun f =>
      (f.performAll lifeCalls).toOption.bind fun g =>
        g.transfer.map fun t => (g.phase, g.pacing, t.chunks.status)) =
      some (.downloading, none, #[.received, .received, .requested]) := by decide +kernel
  obtain ⟨f, hnew, hvalue⟩ := Checked.exists_of_bind_toOption hvalue
  obtain ⟨g, hcalls, hvalue⟩ := Checked.exists_of_bind_toOption hvalue
  obtain ⟨t, ht, htriple⟩ := Option.map_eq_some_iff.mp hvalue
  obtain ⟨hphase, hpair⟩ := Prod.mk.inj htriple
  obtain ⟨hpacing, hstatus⟩ := Prod.mk.inj hpair
  exact ⟨f, g, t, hnew, hcalls, hphase, hpacing, ht, hstatus⟩

/-- At the end of the sample calls chunk 2 has one timer, and no other chunk has one. -/
theorem timers_match_sample :
    ∃ f g, ofSettings 0 lifeSettings = .ok f ∧ f.performAll lifeCalls = .ok g ∧
      g.phase = .downloading ∧
      ∀ chunk, g.timers.chunks.count chunk = if chunk = 2 then 1 else 0 := by
  obtain ⟨f, g, t, hnew, hcalls, hphase, -, ht, hstatus⟩ := performAll_lifeCalls
  obtain ⟨u, hu, hcount⟩ := (timers_match hnew hcalls).1 hphase
  obtain rfl : t = u := Option.some.inj (ht.symm.trans hu)
  refine ⟨f, g, hnew, hcalls, hphase, fun chunk => ?_⟩
  rw [hcount chunk, ChunkTable.status?, hstatus]
  -- The table has an entry for the first three chunks only.
  rcases chunk with _ | _ | _ | n
  · rfl
  · rfl
  · rfl
  · simp

/-! ### Wake-ups -/

/-- **No wake-up is lost.** Take a new fetcher and any calls on it, which do not fail if they are
`Workable`. If a transfer runs at their end, the pacing tick is set, or there is a chunk whose
request is out and whose timer is armed, or every chunk has arrived. -/
theorem always_wakes {id : Nat} {settings : FetchSettings} (hnew : ofSettings id settings = .ok f)
    (calls : List Call) :
    (Workable settings calls → ∃ g, f.performAll calls = .ok g) ∧
      ∀ g, f.performAll calls = .ok g → g.phase = .downloading → ∃ t, g.transfer = some t ∧
        (g.pacing.isSome = true ∨
          (∃ chunk ∈ g.timers.chunks, t.chunks.status? chunk = some .requested) ∨
          ∀ chunk < t.chunks.size, t.chunks.status? chunk = some .received) := by
  refine ⟨fun h => (h.performAll_ok hnew).imp fun _ => And.left, fun g hg hphase => ?_⟩
  obtain ⟨t, hclocked, hwakes⟩ :=
    (performAll_inOrder calls (inOrder_ofSettings hnew) hg).of_busy hphase
  refine ⟨t, hclocked.transfer, ?_⟩
  rcases hwakes with htick | ⟨chunk, hrequested⟩ | hall
  · exact .inl htick
  · exact .inr (.inl ⟨chunk, (hclocked.armed chunk).mpr hrequested, hrequested⟩)
  · exact .inr (.inr hall)

/-- At the end of the sample calls no tick is set, and a timer is armed. -/
theorem always_wakes_sample :
    Workable lifeSettings lifeCalls ∧ ∃ f g t, ofSettings 0 lifeSettings = .ok f ∧
      f.performAll lifeCalls = .ok g ∧ g.phase = .downloading ∧ g.pacing = none ∧
      g.transfer = some t ∧
      ∃ chunk ∈ g.timers.chunks, t.chunks.status? chunk = some .requested := by
  have hworkable : Workable lifeSettings lifeCalls := workable_life (by decide)
  obtain ⟨f, g, t, hnew, hcalls, hphase, hpacing, ht, hstatus⟩ := performAll_lifeCalls
  obtain ⟨u, hu, hcases⟩ := (always_wakes hnew lifeCalls).2 g hcalls hphase
  obtain rfl : t = u := Option.some.inj (ht.symm.trans hu)
  refine ⟨hworkable, f, g, t, hnew, hcalls, hphase, hpacing, ht, ?_⟩
  rcases hcases with htick | harmed | hall
  · simp [hpacing] at htick
  · exact harmed
  · -- Chunk 2 has not arrived.
    have hsize : 2 < t.chunks.size := by simp [ChunkTable.size, hstatus]
    have hreceived := hall 2 hsize
    simp [ChunkTable.status?, hstatus] at hreceived

end

end Fetcher

end LayerCast
