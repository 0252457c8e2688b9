import LayerCast.Proofs.Transfer.Diary

/-!
# `LayerCast.Proofs.Transfer.Events`: what the owner is told about a transfer

The owner of a fetcher learns about a transfer through events and through the delivery.
`event_protocol` says what it can rely on, whatever the network sends and whenever the owner looks:
it is told at most once that the transfer only drains, and after that at most once how it has ended.
A transfer that has finished delivers exactly once, and one that has ended in any way is deaf.

The proof compares the diary with the fetcher (`Tells`). What was told and what is still in the
queue follows from two things that happen once: the transfer has drained, and a wake has ended it.
-/

set_option autoImplicit false

namespace LayerCast

/-- The event that tells of the phase in which a wake has ended a transfer. -/
def FetchPhase.lastWord : FetchPhase → FetchEvent
  | .finished => .finished
  | _ => .rejected

namespace Fetcher

/-- What has to be told about the draining of a transfer. -/
def Scene.drainNews (s : Scene) : List FetchEvent :=
  if s.transfer.any (·.drained) then [.soonFinished] else []

/-- What was delivered, or can be taken. -/
def deliveries (d : Diary) (s : Scene) : List Delivery := d.delivered ++ s.completed.toList

/-- What has come of the transfer so far. -/
inductive Standing (d : Diary) (s : Scene) : Prop
  /-- No wake has ended the transfer. -/
  | unsettled (hends : d.ends = []) (hphase : s.phase ≠ .finished)
      (hdeliveries : deliveries d s = [])
  | finished {t : Transfer} {x : Delivery} (hends : d.ends = [.finished])
      (hphase : s.phase = .finished) (hdeliveries : deliveries d s = [x])
      (ht : s.transfer = some t) (hsegment : x.segment = t.segment)
      (hbytes : x.bytes = assemble t.parts) (htally : x.tally = t.tally)
  | rejected (hends : d.ends = [.aborted]) (hphase : s.phase = .aborted)
      (hdeliveries : deliveries d s = [])

/-- The owner is told what there is to tell. -/
structure Tells (d : Diary) (s : Scene) : Prop where
  events : d.told ++ s.events = s.drainNews ++ d.ends.map FetchPhase.lastWord
  standing : Standing d s

variable {d d' : Diary} {f g : Fetcher} {s s' mid : Scene} {t : Transfer}
  {gain : Option (Nat × ByteArray)} {settings : FetchSettings}

/-- That every chunk is requested is news until the owner has been told. -/
theorem drainNews_of_transfer (ht : s.transfer = some t) :
    s.drainNews = if t.drained then [.soonFinished] else [] := by
  rw [Scene.drainNews, ht]
  rfl

/-- No wake has ended a transfer that runs. -/
theorem Standing.of_running (h : Standing d s) (hphase : s.phase = .downloading) :
    d.ends = [] ∧ d.delivered = [] ∧ s.completed = none := by
  cases h with
  | unsettled hends _ hdeliveries =>
      obtain ⟨hdelivered, hcompleted⟩ := List.append_eq_nil_iff.mp hdeliveries
      exact ⟨hends, hdelivered, Option.toList_eq_nil_iff.mp hcompleted⟩
  | finished _ hfinished => simp [hphase] at hfinished
  | rejected _ haborted => simp [hphase] at haborted

/-- What has come of a transfer stays when its owner takes what is there, and when the owner gives
it up. -/
theorem Standing.keep (h : Standing d s) (hends : d'.ends = d.ends)
    (hdeliveries : deliveries d' s' = deliveries d s)
    (hphase : s'.phase = s.phase ∨ s.phase = .downloading ∧ s'.phase = .aborted)
    (htransfer : ∀ t, s.transfer = some t →
      ∃ u, s'.transfer = some u ∧ u.segment = t.segment ∧ u.parts = t.parts ∧
        u.tally = t.tally) :
    Standing d' s' := by
  -- How a transfer has ended is never changed, except that one that runs may be given up.
  cases h with
  | unsettled hopen hnot hnone =>
      refine .unsettled (hends.trans hopen) ?_ (hdeliveries.trans hnone)
      rcases hphase with hsame | ⟨-, haborted⟩
      · rwa [hsame]
      · simp [haborted]
  | finished hfinished hend hone ht hsegment hbytes htally =>
      obtain ⟨u, hu, husegment, huparts, hutally⟩ := htransfer _ ht
      refine .finished (hends.trans hfinished) ?_ (hdeliveries.trans hone) hu
        (hsegment.trans husegment.symm) (huparts.symm ▸ hbytes) (htally.trans hutally.symm)
      rcases hphase with hsame | ⟨hrunning, -⟩
      · exact hsame.trans hend
      · simp [hrunning] at hend
  | rejected hrejected hend hnone =>
      refine .rejected (hends.trans hrejected) ?_ (hdeliveries.trans hnone)
      rcases hphase with hsame | ⟨hrunning, -⟩
      · exact hsame.trans hend
      · simp [hrunning] at hend

/-- A wake tells of the end to which it has led. -/
theorem Tells.wake (h : Tells d s) (hphase : s.phase = .downloading) (ht : s.transfer = some t)
    (hdeed : Deed s t gain mid) (hsequel : Sequel mid s') (sent : List Interest) :
    Tells (d.wake gain sent s'.phase) s' := by
  obtain ⟨hends, hdelivered, hcompleted⟩ := h.standing.of_running hphase
  obtain ⟨u, hu, -, -, hdrained, hsame, hcase⟩ := hdeed.open_or_rejected ht
  -- So far the owner was told at most that every chunk is requested.
  have hevents : d.told ++ s.events = if t.drained then [.soonFinished] else [] := by
    rw [h.events, drainNews_of_transfer ht, hends]
    simp
  have hnone : deliveries d mid = [] := by simp [deliveries, hdelivered, hsame, hcompleted]
  rcases hcase with ⟨hmid, hmidEvents⟩ | ⟨hmid, hmidEvents⟩
  · rw [hphase] at hmid
    have htold : d.told ++ mid.events = if u.drained then [.soonFinished] else [] := by
      rw [hmidEvents, hevents, hdrained]
    -- The transfer still runs after the deed, and may be drained or come to its end.
    cases hsequel with
    | same =>
        refine ⟨?_, .unsettled ?_ (by simp [hmid]) hnone⟩
        · simpa [Diary.wake, drainNews_of_transfer hu, hmid, hends] using htold
        · simp [Diary.wake, hmid, hends]
    | @drained v _ hv _ hfirst =>
        obtain rfl : u = v := Option.some.inj (hu.symm.trans hv)
        refine ⟨?_, .unsettled ?_ (by simp [hmid]) hnone⟩
        · have hnothing : d.told = [] ∧ mid.events = [] := by simpa [hfirst] using htold
          simp [Diary.wake, Scene.drainNews, hmid, hends, hnothing]
        · simp [Diary.wake, hmid, hends]
    | @finished v x _ hv _ hsegment hbytes htally =>
        refine ⟨?_, .finished ?_ rfl ?_ hv hsegment hbytes htally⟩
        · show d.told ++ (mid.events ++ [.finished]) = mid.drainNews ++ _
          rw [← List.append_assoc, htold, drainNews_of_transfer hu]
          simp [Diary.wake, hends, FetchPhase.lastWord]
        · simp [Diary.wake, hends]
        · simp [Diary.wake, deliveries, hdelivered]
  · -- Nothing follows where the transfer is given up.
    obtain rfl := hsequel.eq_of_phase (by simp [hmid])
    refine ⟨?_, .rejected ?_ hmid hnone⟩
    · rw [hmidEvents, drainNews_of_transfer hu, hdrained, ← hevents, ← List.append_assoc]
      simp [Diary.wake, hmid, hends, FetchPhase.lastWord]
    · simp [Diary.wake, hmid, hends]

/-- At its start there is nothing to tell about a transfer. -/
theorem tells_opened (f : Fetcher) (now : Nat) (segment : Segment) :
    Tells {} (f.opened now segment).scene :=
  ⟨rfl, .unsettled rfl (fun hphase => nomatch hphase) rfl⟩

/-- **One turn** tells what there is to tell. -/
theorem Tells.turn {call : Call} (h : Tells d f.scene) (hturn : Turn d f call d' s') :
    Tells d' s' := by
  have hsame : ∀ t, f.transfer = some t →
      ∃ u, f.transfer = some u ∧ u.segment = t.segment ∧ u.parts = t.parts ∧
        u.tally = t.tally :=
    fun t ht => ⟨t, ht, rfl, rfl, rfl⟩
  cases hturn with
  | nothing => exact h
  | started _ hdeed => exact (tells_opened f _ _).wake rfl rfl hdeed .same _
  | woken hphase ht hdeed hsequel => exact h.wake hphase ht hdeed hsequel _
  | reset => exact ⟨rfl, .unsettled rfl (fun hphase => nomatch hphase) rfl⟩
  | aborted =>
      refine ⟨?_, h.standing.keep rfl rfl ?_ fun t ht => ?_⟩
      · have hdrain : Option.any (·.drained)
            (f.transfer.map fun t => { t with chunks := t.chunks.abort }) =
              f.transfer.any (·.drained) := by
          rw [Option.any_map]
        rw [Scene.drainNews, hdrain]
        exact h.events
      · by_cases hphase : f.phase = .downloading
        · exact .inr ⟨hphase, if_pos hphase⟩
        · exact .inl (if_neg hphase)
      · have ht : f.transfer = some t := ht
        exact ⟨{ t with chunks := t.chunks.abort }, by simp [ht], rfl, rfl, rfl⟩
  | told hevents =>
      refine ⟨?_, h.standing.keep rfl rfl (.inl rfl) hsame⟩
      have htold : d.told ++ f.events = f.scene.drainNews ++ _ := h.events
      rw [hevents] at htold
      rw [List.append_assoc]
      exact htold
  | delivered =>
      refine ⟨h.events, h.standing.keep rfl ?_ (.inl rfl) hsame⟩
      simp [deliveries]
  | sent => exact ⟨h.events, h.standing.keep rfl rfl (.inl rfl) hsame⟩
  | released => exact ⟨h.events, h.standing.keep rfl rfl (.inl rfl) hsame⟩
  | installed => exact ⟨h.events, h.standing.keep rfl rfl (.inl rfl) hsame⟩

/-- Before the first transfer there is nothing to tell. -/
theorem tells_blank (settings : FetchSettings) (window : Window) :
    Tells {} (.blank settings window) :=
  ⟨rfl, .unsettled rfl (fun hphase => nomatch hphase) rfl⟩

/-- **A life** tells what there is to tell about its last transfer. -/
theorem follow_tells {id : Nat} (hnew : ofSettings id settings = .ok f) {calls : List Call}
    (hg : f.follow {} calls = .ok (d, g)) : Tells d g.scene :=
  turns_preserve hnew Tells (tells_blank settings) (fun _ _ _ _ _ h hturn => h.turn hturn) hg

/-! ### The protocol -/

/-- What the owner of a fetcher can rely on. -/
structure Protocol (d : Diary) (g : Fetcher) : Prop where
  /-- The owner hears at most once that the transfer only drains, and then at most once how it has
  ended. -/
  order : ∃ soon last, d.told ++ g.events = soon ++ last ∧
    (soon = [] ∨ soon = [.soonFinished]) ∧
    (last = [] ∨ last = [.finished] ∨ last = [.rejected])
  finished : .finished ∈ d.told ++ g.events ↔ g.phase = .finished
  rejected : .rejected ∈ d.told ++ g.events ↔ d.ends = [.aborted]
  /-- At most one wake has ended the transfer, and what it has led to stays. -/
  ends : d.ends = [] ∧ g.phase ≠ .finished ∨ d.ends = [.finished] ∧ g.phase = .finished ∨
    d.ends = [.aborted] ∧ g.phase = .aborted
  /-- A finished transfer delivers once, and no other one does. -/
  delivery : (d.delivered ++ g.completed.toList).length = if g.phase = .finished then 1 else 0
  /-- Where no transfer runs, nothing is due. -/
  silent : g.phase ≠ .downloading → ∀ now, g.due? now = none
  /-- Where no transfer runs, replies change nothing. -/
  deaf : g.phase ≠ .downloading → ∀ now r, g.handle now (.reply r) = .ok g
  /-- Where no transfer runs, it stays over whatever there may be to wake it. -/
  still : g.phase ≠ .downloading → ∀ wakes : List (Nat × Wake),
    g.follow d (wakes.map fun w => .wake w.1 w.2) = .ok (d, g)

/-- What has to be told in which order. -/
theorem Tells.order (h : Tells d s) :
    ∃ soon last, d.told ++ s.events = soon ++ last ∧
      (soon = [] ∨ soon = [.soonFinished]) ∧
      (last = [] ∨ last = [.finished] ∨ last = [.rejected]) := by
  refine ⟨s.drainNews, d.ends.map FetchPhase.lastWord, h.events, ?_, ?_⟩
  · unfold Scene.drainNews
    split
    · exact .inr rfl
    · exact .inl rfl
  · cases h.standing with
    | unsettled hends => simp [hends]
    | finished hends => simp [hends, FetchPhase.lastWord]
    | rejected hends => simp [hends, FetchPhase.lastWord]

/-- How the transfer has ended is told if a wake has ended it. -/
theorem Tells.mem_iff (h : Tells d s) {e : FetchEvent} (he : e ≠ .soonFinished) :
    e ∈ d.told ++ s.events ↔ e ∈ d.ends.map FetchPhase.lastWord := by
  have hdrain : e ∉ s.drainNews := by
    unfold Scene.drainNews
    split
    · simpa using he
    · exact List.not_mem_nil
  rw [h.events, List.mem_append]
  exact or_iff_right hdrain

/-- A rejection is told if a wake has given the transfer up. -/
theorem Tells.rejected_iff (h : Tells d s) :
    .rejected ∈ d.told ++ s.events ↔ d.ends = [.aborted] := by
  refine (h.mem_iff (by decide)).trans ?_
  cases h.standing with
  | unsettled hends => simp [hends]
  | finished hends => simp [hends, FetchPhase.lastWord]
  | rejected hends => simp [hends, FetchPhase.lastWord]

/-- Where no transfer runs, wakes change nothing. -/
theorem follow_wakes (hphase : f.phase ≠ .downloading) (d : Diary) (wakes : List (Nat × Wake)) :
    f.follow d (wakes.map fun w => .wake w.1 w.2) = .ok (d, f) := by
  have hidle : f.isBusy = false := by simpa [isBusy] using hphase
  induction wakes with
  | nil => rfl
  | cons w rest ih =>
      have hcall : f.perform (.wake w.1 w.2) = .ok f := by simp [perform, hidle]
      have hnote : note d f (.wake w.1 w.2) f = d := by simp [note, hidle]
      rw [List.map_cons, follow, hcall]
      show f.follow (note d f (.wake w.1 w.2) f) _ = _
      rw [hnote, ih]

/-- All parts of the protocol are read off what was told so far. -/
theorem Tells.protocol (h : Tells d g.scene) (horder : g.InOrder settings) : Protocol d g where
  order := h.order
  finished := by
    refine (h.mem_iff (by decide)).trans ?_
    -- Each of the three standings has its phase, its last word and its delivery.
    cases h.standing with
    | unsettled hends hphase => simpa [hends] using hphase
    | finished hends hphase => simpa [hends, FetchPhase.lastWord] using hphase
    | rejected hends hphase =>
        rw [scene_phase] at hphase
        simp [hends, hphase, FetchPhase.lastWord]
  rejected := h.rejected_iff
  ends := by
    cases h.standing with
    | unsettled hends hphase => exact .inl ⟨hends, hphase⟩
    | finished hends hphase => exact .inr (.inl ⟨hends, hphase⟩)
    | rejected hends hphase => exact .inr (.inr ⟨hends, hphase⟩)
  delivery := by
    show (deliveries d g.scene).length = _
    cases h.standing with
    | unsettled _ hphase hnone =>
        rw [scene_phase] at hphase
        rw [hnone, if_neg hphase, List.length_nil]
    | finished _ hphase hone =>
        rw [scene_phase] at hphase
        rw [hone, if_pos hphase, List.length_singleton]
    | rejected _ hphase hnone =>
        rw [scene_phase] at hphase
        simp [hnone, hphase]
  silent hphase now := by
    obtain ⟨-, -, htimers, hpacing⟩ := horder.of_not_busy hphase
    rw [due?, htimers, hpacing]
    rfl
  deaf hphase now r := if_pos hphase
  still hphase := follow_wakes hphase d

/-- **The event protocol.** Take a new fetcher and any calls on it, which do not fail if they are
`Workable`. About the transfer that was started last, its owner was told what `Protocol` says. -/
theorem event_protocol {id : Nat} (hnew : ofSettings id settings = .ok f) (calls : List Call) :
    (Workable settings calls → ∃ d g, f.follow {} calls = .ok (d, g)) ∧
      ∀ d g, f.follow {} calls = .ok (d, g) → Protocol d g := by
  refine ⟨fun h => h.follow_ok hnew, fun d g hg => ?_⟩
  exact (follow_tells hnew hg).protocol (follow_inOrder (inOrder_ofSettings hnew) hg)

/-- The sample calls go on until chunk 2 has arrived. The owner takes an event and the delivery,
and then gives up what has ended. -/
def finishedCalls : List Call :=
  lifeCalls ++ [dataCall 970 2 ⟨#[8, 8]⟩, .takeEvent, .takeCompleted, .abort]

/-- At the end of these calls the owner has taken one of two events, and the only delivery. -/
theorem event_protocol_sample :
    Workable lifeSettings finishedCalls ∧ ∃ f d g, ofSettings 0 lifeSettings = .ok f ∧
      f.follow {} finishedCalls = .ok (d, g) ∧ d.told = [.soonFinished] ∧
      g.events = [.finished] ∧ g.phase = .finished ∧ d.ends = [.finished] ∧
      (d.delivered ++ g.completed.toList).length = 1 := by
  have hworkable : Workable lifeSettings finishedCalls := workable_life (by decide)
  have hvalue : ((ofSettings 0 lifeSettings).toOption.bind fun f =>
      (f.follow {} finishedCalls).toOption.map fun r => (r.1.told, r.2.events)) =
      some ([.soonFinished], [.finished]) := by decide +kernel
  obtain ⟨f, hnew, hvalue⟩ := Checked.exists_of_bind_toOption hvalue
  obtain ⟨hsucceeds, hprotocol⟩ := event_protocol hnew finishedCalls
  obtain ⟨d, g, hg⟩ := hsucceeds hworkable
  obtain ⟨htold, hevents⟩ : d.told = [.soonFinished] ∧ g.events = [.finished] := by
    rw [hg] at hvalue
    exact Prod.mk.inj (Option.some.inj hvalue)
  have h := hprotocol d g hg
  have hphase : g.phase = .finished := h.finished.mp (by simp [hevents])
  have hends : d.ends = [.finished] := by simpa [hphase] using h.ends
  exact ⟨hworkable, f, d, g, hnew, hg, htold, hevents, hphase, hends, by simp [h.delivery, hphase]⟩

end Fetcher

end LayerCast
