import LayerCast.Proofs.Transfer.Calls
import LayerCast.Proofs.Transfer.Deeds

/-!
# `LayerCast.Proofs.Transfer.Diary`: what has come of the last transfer

A `Diary` is kept beside a fetcher. It begins anew with every transfer and notes what leaves the
fetcher and what decides about it: the events and deliveries that the owner takes, the data that is
taken, the interests that are sent, and the wakes that end the transfer. The fetcher does not read
it (`performAll_eq_ok_iff`).

`perform_turn` says what a call does to the diary and the scene of a fetcher. It is a `Turn`, of
which there is one for each thing that an owner can do and one for all wakes. An invariant that
every turn preserves holds after every list of calls (`follow_preserves`).
-/

set_option autoImplicit false

namespace LayerCast

/-- What is known of the transfer that was started last. -/
structure Diary where
  /-- The events that the owner has taken, the oldest first. -/
  told : List FetchEvent := []
  /-- The deliveries that the owner has taken. -/
  delivered : List Delivery := []
  /-- The data that the transfer has taken. -/
  taken : ChunkLog := []
  /-- The interests that were sent, the oldest first. -/
  asked : List Interest := []
  /-- The phases in which wakes have ended the transfer. What the owner ends is not noted. -/
  ends : List FetchPhase := []

namespace Diary

/-- Notes a wake: what it took, what it sent, and the phase that it led to. -/
def wake (d : Diary) (gain : Option (Nat × ByteArray)) (sent : List Interest)
    (phase : FetchPhase) : Diary :=
  { d with
    taken := gain.toList ++ d.taken
    asked := d.asked ++ sent
    ends := if phase = .downloading then d.ends else d.ends ++ [phase] }

/-- How often a chunk was requested. -/
def requests (d : Diary) (chunk : Nat) : Nat := (d.asked.map (·.name.chunk)).count chunk

end Diary

namespace Fetcher

/-- The interests that lie in the outbox of a fetcher and did not lie there before. -/
def sends (f g : Fetcher) : List Interest := g.outbox.drop f.outbox.length

/-- The diary after a call that has led from one fetcher to another. -/
def note (d : Diary) (f : Fetcher) (call : Call) (g : Fetcher) : Diary :=
  match call with
  | .start _ _ => if f.isBusy then d else ({} : Diary).wake none (f.sends g) g.phase
  | .reset => {}
  | .wake _ w => if f.isBusy then d.wake (f.taken? w) (f.sends g) g.phase else d
  | .takeEvent => { d with told := d.told ++ f.events.head?.toList }
  | .takeCompleted => { d with delivered := d.delivered ++ f.completed.toList }
  | _ => d

/-- Carries out calls one after another and keeps the diary. -/
def follow (f : Fetcher) (d : Diary) : List Call → Checked (Diary × Fetcher)
  | [] => .ok (d, f)
  | call :: rest => do
    let g ← f.perform call
    g.follow (note d f call g) rest

section
variable {s : FetchSettings} {f g : Fetcher} {d d' : Diary}

/-- A diary is one way to watch a fetcher. -/
theorem follow_eq_watch (calls : List Call) : f.follow d calls = f.watch note d calls := by
  induction calls generalizing f d with
  | nil => rfl
  | cons call rest ih =>
      show (f.perform call >>= fun g => g.follow (note d f call g) rest) = _
      simp only [ih]
      rfl

/-- Whether a diary is kept or not, the calls do the same. -/
theorem performAll_eq_ok_iff (calls : List Call) (d : Diary) :
    f.performAll calls = .ok g ↔ ∃ d', f.follow d calls = .ok (d', g) := by
  simp only [follow_eq_watch]
  exact performAll_eq_ok_iff_watch calls d

/-- Workable calls on a new fetcher do not fail. -/
theorem Workable.follow_ok {calls : List Call} (h : Workable s calls) {id : Nat}
    (hnew : ofSettings id s = .ok f) : ∃ d g, f.follow {} calls = .ok (d, g) := by
  obtain ⟨g, hg, -⟩ := h.performAll_ok hnew
  obtain ⟨d, hd⟩ := (performAll_eq_ok_iff calls {}).mp hg
  exact ⟨d, g, hd⟩

/-- Calls on a fetcher that is in order leave it in order. -/
theorem follow_inOrder {calls : List Call} (h : f.InOrder s) (hg : f.follow d calls = .ok (d', g)) :
    g.InOrder s :=
  performAll_inOrder calls h ((performAll_eq_ok_iff calls d).mpr ⟨d', hg⟩)

/-- What each call of some kind preserves holds after all such calls. -/
theorem follow_preserves (holds : Diary → Fetcher → Prop) (kind : Call → Prop)
    (hstep : ∀ d f call g, f.InOrder s → g.InOrder s → kind call → f.perform call = .ok g →
      holds d f → holds (note d f call g) g)
    {calls : List Call} (hkind : ∀ call ∈ calls, kind call) (horder : f.InOrder s)
    (hf : holds d f) (hg : f.follow d calls = .ok (d', g)) : holds d' g :=
  watch_preserves holds kind hstep hkind horder hf (follow_eq_watch calls ▸ hg)

/-! ### Turns -/

/-- What one call does to the diary and the scene of a fetcher. -/
inductive Turn (d : Diary) (f : Fetcher) : Call → Diary → Scene → Prop
  /-- A start is refused, there is no event to take, or nothing runs that could be woken. -/
  | nothing {call : Call} : Turn d f call d f.scene
  /-- A transfer is started, and its first request is sent. -/
  | started {now : Nat} {segment : Segment} {s' : Scene} (hidle : f.phase ≠ .downloading)
      (hdeed : Deed (f.opened now segment).scene (f.untouched now segment) none s') :
      Turn d f (.start now segment)
        (({} : Diary).wake none (s'.outbox.drop f.outbox.length) s'.phase) s'
  | aborted :
      Turn d f .abort d { f.scene with
        phase := if f.phase = .downloading then .aborted else f.phase
        transfer := f.transfer.map fun t => { t with chunks := t.chunks.abort } }
  | reset :
      Turn d f .reset {} { f.scene with
        phase := .idle, transfer := none, completed := none, events := [] }
  /-- A running transfer is woken. -/
  | woken {t : Transfer} {now : Nat} {w : Wake} {mid s' : Scene} (hphase : f.phase = .downloading)
      (ht : f.transfer = some t) (hdeed : Deed f.scene t (f.taken? w) mid)
      (hsequel : Sequel mid s') :
      Turn d f (.wake now w)
        (d.wake (f.taken? w) (s'.outbox.drop f.outbox.length) s'.phase) s'
  | told {e : FetchEvent} {rest : List FetchEvent} (hevents : f.events = e :: rest) :
      Turn d f .takeEvent { d with told := d.told ++ [e] } { f.scene with events := rest }
  | delivered :
      Turn d f .takeCompleted { d with delivered := d.delivered ++ f.completed.toList }
        { f.scene with completed := none }
  | sent {closed : Bool} : Turn d f (.sent closed) d { f.scene with outbox := [] }
  | released : Turn d f .releaseWindow d { f.scene with window := none }
  | installed {w : Window} {sound : w.Sound} :
      Turn d f (.installWindow w sound) d { f.scene with window := some w }

/-- A chunk that has not to be requested is not. -/
theorem request_eq_self {t : Transfer} {chunk : Nat} (ht : f.transfer = some t)
    (hallowed : f.mayRequest (t.chunks.attemptsOf chunk) = true)
    (hrefused : t.chunks.request? chunk = none) (now : Nat) : f.request now chunk = f := by
  unfold request
  simp [ht, hallowed, hrefused]

/-- A transfer starts with a request for chunk 0, if the table has any chunks. -/
theorem begin_deed (h : f.Equipped s) (now : Nat) (segment : Segment) :
    Deed (f.opened now segment).scene (f.untouched now segment) none
      (f.begin now segment).scene := by
  have hroom := (opened_clocked h now segment).windowSize_pos
  -- The pacing tick is not part of the scene.
  show Deed _ _ none ((f.opened now segment).request now 0).scene
  by_cases hguess : f.settings.chunkGuess = 0
  · have hnone : (f.untouched now segment).chunks.request? 0 = none := by
      simp [untouched, ChunkTable.request?, ChunkTable.status?, ChunkTable.ofSize, hguess]
    rw [request_eq_self rfl (f.opened_mayRequest now segment) hnone]
    exact .nothing
  · refine request_deed rfl rfl ?_ hroom
    show (Array.replicate f.settings.chunkGuess ChunkStatus.untouched).findIdx? _ = some 0
    exact Array.findIdx?_eq_some_iff_getElem.mpr
      ⟨by simp; omega, by simp [ChunkStatus.isNeeded], fun j hj => absurd hj (Nat.not_lt_zero j)⟩

/-- A start is refused, or begins a transfer and a diary of it. -/
theorem perform_start_cases {now : Nat} {segment : Segment}
    (hg : f.perform (.start now segment) = .ok g) (d : Diary) :
    g = f ∧ note d f (.start now segment) g = d ∨
      f.phase ≠ .downloading ∧ g = f.begin now segment ∧
        note d f (.start now segment) g = ({} : Diary).wake none (f.sends g) g.phase := by
  rcases start_cases hg with ⟨hbusy, rfl⟩ | ⟨hidle, rfl⟩
  · exact .inl ⟨rfl, if_pos hbusy⟩
  · exact .inr ⟨by simpa [isBusy] using hidle, rfl, if_neg (by simp [hidle])⟩

/-- A wake finds nothing that runs, or is carried out and noted. -/
theorem perform_wake_cases (h : f.InOrder s) {now : Nat} {w : Wake}
    (hg : f.perform (.wake now w) = .ok g) (d : Diary) :
    g = f ∧ note d f (.wake now w) g = d ∨
      f.phase = .downloading ∧ (∃ t, f.transfer = some t) ∧ f.handle now w = .ok g ∧
        note d f (.wake now w) g = d.wake (f.taken? w) (f.sends g) g.phase := by
  rcases wake_cases h hg with ⟨hidle, rfl⟩ | ⟨hbusy, hphase, ht, hhandled⟩
  · exact .inl ⟨rfl, if_neg (by simp [hidle])⟩
  · exact .inr ⟨hphase, ht, hhandled, if_pos hbusy⟩

/-- **One call** is a turn. -/
theorem perform_turn (h : f.InOrder s) {call : Call} (hg : f.perform call = .ok g) :
    Turn d f call (note d f call g) g.scene := by
  -- The two calls that may do nothing come first, then those of the owner.
  cases call with
  | start now segment =>
      rcases perform_start_cases hg d with ⟨rfl, hnote⟩ | ⟨hidle, rfl, hnote⟩
      · rw [hnote]
        exact .nothing
      · rw [hnote]
        exact .started hidle (begin_deed h.equipped now segment)
  | wake now w =>
      rcases perform_wake_cases h hg d with ⟨rfl, hnote⟩ | ⟨hphase, ⟨t, ht⟩, hhandled, hnote⟩
      · rw [hnote]
        exact .nothing
      · obtain ⟨mid, hdeed, hsequel⟩ := handle_comes hphase ht hhandled
        rw [hnote]
        exact .woken hphase ht hdeed hsequel
  | takeEvent =>
      obtain rfl := Except.ok.inj hg
      cases hevents : f.events with
      | nil =>
          have hnone : f.takeEvent? = none := by rw [takeEvent?, hevents]
          rw [hnone, note, hevents]
          simpa using (Turn.nothing : Turn d f .takeEvent d f.scene)
      | cons e rest =>
          have hsome : f.takeEvent? = some (e, { f with events := rest }) := by
            rw [takeEvent?, hevents]
          rw [hsome, note, hevents]
          exact .told hevents
  | abort =>
      obtain rfl := Except.ok.inj hg
      exact .aborted
  | reset =>
      obtain rfl := Except.ok.inj hg
      exact .reset
  | takeCompleted =>
      obtain rfl := Except.ok.inj hg
      exact .delivered
  | sent closed =>
      obtain rfl := Except.ok.inj hg
      exact .sent
  | releaseWindow =>
      obtain rfl := Except.ok.inj hg
      exact .released
  | installWindow w _ =>
      obtain rfl := Except.ok.inj hg
      exact .installed

/-! ### Lives -/

/-- The scene of a new fetcher. -/
def Scene.blank (settings : FetchSettings) (window : Window) : Scene :=
  { settings
    freshWindow := window
    phase := .idle
    transfer := none
    window := some window
    events := []
    completed := none
    outbox := [] }

/-- A new fetcher has the blank scene, with a fresh window. -/
theorem scene_ofSettings {id : Nat} (hnew : ofSettings id s = .ok f) :
    f.scene = .blank s f.freshWindow := by
  obtain ⟨window, -, h⟩ := Checked.bind_eq_ok_iff.mp hnew
  obtain rfl := Except.ok.inj h
  rfl

/-- **A life** keeps what holds of a new fetcher and what every turn keeps. -/
theorem turns_preserve {id : Nat} (hnew : ofSettings id s = .ok f)
    (holds : Diary → Scene → Prop) (hstart : ∀ window, holds {} (.blank s window))
    (hturn : ∀ d f call d' s', holds d f.scene → Turn d f call d' s' → holds d' s')
    {calls : List Call} (hg : f.follow {} calls = .ok (d, g)) : holds d g.scene := by
  have hf : holds {} f.scene := scene_ofSettings hnew ▸ hstart f.freshWindow
  refine follow_preserves (fun d f => holds d f.scene) (fun _ => True) ?_ (fun _ _ => trivial)
    (inOrder_ofSettings hnew) hf hg
  intro d f call g horder _ _ hcall h
  exact hturn d f call _ _ h (perform_turn horder hcall)

end

end Fetcher

end LayerCast
