import LayerCast.Proofs.Transfer.ChunkTable
import LayerCast.Proofs.Transfer.Handlers
import LayerCast.Proofs.Transfer.Timers

/-!
# `LayerCast.Proofs.Transfer.Clockwork`: what is armed while a transfer runs

A fetcher is woken by timers, by the pacing tick and by replies. What is armed for it is in order
(`Fetcher.InOrder`) in two cases. Either no transfer runs and nothing is armed (`Still`). Or a
transfer runs, the chunks with a timer are those whose requests are out (`Clocked`), and something
is still going to happen or nothing is left to be requested (`Wakes`).

`handle_inOrder` says that every wake leaves a fetcher in order. Three facts carry it. Whatever
changes the table changes the timers with it, though not at the same moment, so that in between one
chunk is left out of account (`ClockedBeside`). Whoever changes the table sets the pacing tick
afterwards, if a chunk has to be requested (`scheduleNext_inOrder`). And a pacing tick that is too
early finds a request out, because every window lets at least one out (`Window.Sound`).
-/

set_option autoImplicit false

namespace LayerCast

/-! ### Windows -/

/-- A window that lets at least one request out, now and whenever it has changed. -/
structure Window.Sound (w : Window) : Prop where
  size : 0 < w.size
  ceiling : 0 < w.ceiling

namespace Window

/-- Whatever is clamped from 1 on is positive. -/
theorem clamp_pos (high n : Nat) : 0 < clamp 1 high n := by
  unfold clamp
  omega

/-- Every window starts with room for a request. -/
theorem sound_ofSettings {settings : WindowSettings} {payload : Nat} {w : Window}
    (h : ofSettings settings payload = .ok w) : w.Sound := by
  obtain ⟨packet, -, h⟩ := Checked.bind_eq_ok_iff.mp h
  obtain ⟨bits, -, h⟩ := Checked.bind_eq_ok_iff.mp h
  obtain rfl := Except.ok.inj h
  exact ⟨clamp_pos _ _, clamp_pos _ _⟩

/-- A window that grows is clamped from 1 on. -/
theorem Sound.grow {w : Window} (h : w.Sound) : w.grow.Sound := by
  obtain ⟨hsize, hceiling⟩ := h
  unfold Window.grow
  split
  · exact ⟨hsize, hceiling⟩
  · refine ⟨?_, hceiling⟩
    show 0 < min _ w.ceiling
    split <;> omega

/-- A window that shrinks keeps room for a request. -/
theorem Sound.shrink {w : Window} (h : w.Sound) : w.shrink.Sound := by
  obtain ⟨hsize, hceiling⟩ := h
  unfold Window.shrink
  split
  · exact ⟨hsize, hceiling⟩
  · refine ⟨?_, hceiling⟩
    show 0 < max (w.size / 2) 1
    omega

/-- The threshold is apart from the size. -/
theorem Sound.setThreshold {w : Window} (h : w.Sound) (n : Nat) : (w.setThreshold n).Sound := by
  unfold Window.setThreshold
  split
  · exact h
  · exact ⟨h.size, h.ceiling⟩

end Window

namespace Fetcher

/-! ### Fetchers in order -/

/-- What stays with a fetcher from one transfer to the next. -/
structure Equipped (s : FetchSettings) (f : Fetcher) : Prop where
  settings : f.settings = s
  fresh : f.freshWindow.Sound
  window : ∀ w, f.window = some w → w.Sound

/-- No transfer runs, and nothing is armed. -/
structure Still (s : FetchSettings) (f : Fetcher) : Prop extends Equipped s f where
  phase : f.phase ≠ .downloading
  timers : f.timers = {}
  pacing : f.pacing = none

/-- A transfer runs. -/
structure Running (s : FetchSettings) (f : Fetcher) (t : Transfer) : Prop
    extends Equipped s f where
  phase : f.phase = .downloading
  transfer : f.transfer = some t
  /-- A chunk is only given up with the whole transfer. -/
  alive : ∀ i, t.chunks.status? i ≠ some .aborted
  counted : t.chunks.Counted
  keyed : f.timers.Keyed

/-- A transfer runs, and the chunks with a timer are those whose requests are out. -/
structure Clocked (s : FetchSettings) (f : Fetcher) (t : Transfer) : Prop
    extends Running s f t where
  armed : ∀ i, i ∈ f.timers.chunks ↔ t.chunks.status? i = some .requested

/-- A transfer whose timers and requests agree on all chunks but one. -/
structure ClockedBeside (s : FetchSettings) (f : Fetcher) (t : Transfer) (chunk : Nat) : Prop
    extends Running s f t where
  armed : ∀ i, i ≠ chunk → (i ∈ f.timers.chunks ↔ t.chunks.status? i = some .requested)

/-- Something is still going to happen to a transfer, or nothing is left to be requested. -/
def Wakes (f : Fetcher) (t : Transfer) : Prop :=
  f.pacing.isSome = true ∨ (∃ i, t.chunks.status? i = some .requested) ∨
    ∀ i < t.chunks.size, t.chunks.status? i = some .received

/-- A fetcher for which what has to be armed is armed, and nothing else. -/
def InOrder (s : FetchSettings) (f : Fetcher) : Prop :=
  f.Still s ∨ ∃ t, f.Clocked s t ∧ f.Wakes t

section
variable {s : FetchSettings} {f g : Fetcher} {t : Transfer} {now chunk : Nat}

/-- What says nothing about chunks may change in a running transfer. -/
theorem Clocked.withTransfer (h : f.Clocked s t) {u : Transfer} (hchunks : u.chunks = t.chunks) :
    ({ f with transfer := some u } : Fetcher).Clocked s u :=
  { h with
    transfer := rfl
    alive := by rw [hchunks]; exact h.alive
    counted := by rw [hchunks]; exact h.counted
    armed := by rw [hchunks]; exact h.armed }

/-- The round trip estimate has to do with neither timers nor requests. -/
theorem Clocked.withRoundTrip (h : f.Clocked s t) (roundTrip : RoundTrip) :
    ({ f with roundTrip } : Fetcher).Clocked s t := { h with }

/-- Timers and requests agree again once the timer of a chunk is gone whose request is not out. -/
theorem ClockedBeside.cancel (h : f.ClockedBeside s t chunk)
    (hnot : t.chunks.status? chunk ≠ some .requested) :
    ({ f with timers := f.timers.cancel chunk } : Fetcher).Clocked s t :=
  { h with
    keyed := h.keyed.cancel chunk
    armed := by
      intro i
      show i ∈ (f.timers.cancel chunk).chunks ↔ _
      rw [Timers.mem_chunks_cancel h.keyed]
      by_cases hi : i = chunk
      · simp [hi, hnot]
      · simp [hi, h.armed i hi] }

/-- A chunk of a running transfer that needs no request is requested or received. -/
theorem Running.requested_or_received (h : f.Running s t) {i : Nat} {status : ChunkStatus}
    (hstatus : t.chunks.status? i = some status) (hneeded : status.isNeeded = false) :
    status = .requested ∨ status = .received := by
  have halive := h.alive i
  rw [hstatus] at halive
  cases status <;> simp_all [ChunkStatus.isNeeded]

/-! ### Giving up, requesting and scheduling -/

/-- A transfer that is given up leaves nothing armed. -/
theorem still_abort (h : f.Equipped s) : f.abort.Still s :=
  { h with
    phase := f.phase_abort_ne
    timers := rfl
    pacing := rfl }

/-- A transfer that is refused rests as one that is given up does. -/
theorem still_reject (h : f.Equipped s) : f.reject.Still s := { still_abort h with }

/-- A transfer that is dropped leaves nothing armed. -/
theorem still_reset (h : f.Equipped s) : f.reset.Still s :=
  { h with phase := by simp [reset], timers := rfl, pacing := rfl }

/-- The pacing tick is set where a chunk has to be requested. Else each chunk is requested or
received. -/
theorem scheduleNext_inOrder (h : f.Clocked s t) (now : Nat) : (f.scheduleNext now).InOrder s := by
  unfold scheduleNext
  split
  · rename_i hset
    have hpacing : f.pacing.isSome = true := hset.resolve_left (not_not_intro h.phase)
    exact .inr ⟨t, h, .inl hpacing⟩
  · split
    · rename_i hgone
      exact absurd (h.transfer.symm.trans hgone) (Option.some_ne_none t)
    rename_i u hu
    obtain rfl : t = u := Option.some.inj (h.transfer.symm.trans hu)
    split
    · exact .inr ⟨t, { h with }, .inl rfl⟩
    · rename_i hnone
      -- No chunk has to be requested: a request is out, or everything is there.
      have hwakes : (∃ i, t.chunks.status? i = some .requested) ∨
          ∀ i < t.chunks.size, t.chunks.status? i = some .received := by
        by_cases hout : ∃ i, t.chunks.status? i = some .requested
        · exact .inl hout
        · refine .inr fun i hi => ?_
          have hstatus : t.chunks.status? i = some t.chunks.status[i] :=
            Array.getElem?_eq_getElem hi
          have hneeded := ChunkTable.isNeeded_of_nextNeeded hnone hstatus
          rcases h.requested_or_received hstatus hneeded with hrequested | hreceived
          · exact absurd ⟨i, hrequested ▸ hstatus⟩ hout
          · exact hreceived ▸ hstatus
      split
      · exact .inr ⟨t, h, .inr hwakes⟩
      · have hdrained := h.withTransfer (u := { t with drained := true }) rfl
        exact .inr ⟨{ t with drained := true }, { hdrained with }, .inr hwakes⟩

/-- Nothing is scheduled for a fetcher at rest. -/
theorem Still.scheduleNext (h : f.Still s) (now : Nat) : (f.scheduleNext now).InOrder s := by
  rw [scheduleNext_of_phase_ne h.phase]
  exact .inl h

/-- A request that is allowed arms the timer of its chunk. -/
theorem request_clocked (h : f.Clocked s t) (now : Nat)
    (hallowed : f.mayRequest (t.chunks.attemptsOf chunk) = true) :
    ∃ u, (f.request now chunk).Clocked s u := by
  unfold request
  simp only [h.transfer, hallowed, Bool.not_true, Bool.false_eq_true, if_false]
  split
  · exact ⟨t, h⟩
  · rename_i chunks hchunks
    refine ⟨_, { h with
      transfer := rfl
      alive := ?_
      counted := h.counted.request? hchunks
      keyed := h.keyed.arm chunk _
      armed := ?_ }⟩
    · intro i
      show chunks.status? i ≠ _
      rw [ChunkTable.status?_request? hchunks]
      split
      · simp
      · exact h.alive i
    · intro i
      show i ∈ (f.timers.arm chunk _).chunks ↔ chunks.status? i = _
      -- Timer and status change together, for the one chunk.
      rw [Timers.mem_chunks_arm h.keyed, ChunkTable.status?_request? hchunks]
      by_cases hi : i = chunk
      · simp [hi]
      · simp [hi, h.armed i]

/-- A request arms the timer of its chunk, or the transfer is given up. -/
theorem request_cases (h : f.Clocked s t) (now chunk : Nat) :
    (f.request now chunk).Still s ∨ ∃ u, (f.request now chunk).Clocked s u := by
  by_cases hallowed : f.mayRequest (t.chunks.attemptsOf chunk) = true
  · exact .inr (request_clocked h now hallowed)
  · left
    unfold request
    simp only [h.transfer, hallowed, Bool.not_false, if_true]
    exact still_reject h.toEquipped

/-! ### Ticks -/

/-- Every window lets at least one request out. -/
theorem Running.windowSize_pos (h : f.Running s t) : 0 < f.windowSize := by
  unfold windowSize
  split
  · rename_i w hw
    exact (h.window w hw).size
  · exact Nat.one_pos

/-- A pacing tick sends a request and sets the next tick. Without room in the window it does
neither, but then a request is out. -/
theorem onTick_inOrder (h : f.Clocked s t) : (f.onTick now).InOrder s := by
  unfold onTick
  rw [h.transfer]
  simp only
  split
  · rename_i hfull
    have hout : 0 < t.chunks.inFlight := Nat.lt_of_lt_of_le h.windowSize_pos hfull
    exact .inr ⟨t, h, .inr (.inl (h.counted.exists_requested hout))⟩
  · split
    · rename_i chunk _
      rcases request_cases h now chunk with hstill | ⟨u, hclocked⟩
      · exact hstill.scheduleNext now
      · exact scheduleNext_inOrder hclocked now
    · exact scheduleNext_inOrder h now

/-! ### Setbacks -/

/-- Timers and tick do not depend on the window, as long as it has room. -/
theorem Clocked.shrinkWindow (h : f.Clocked s t) (now : Nat) :
    (f.shrinkWindow now).Clocked s t := by
  unfold Fetcher.shrinkWindow
  split
  · exact h
  · refine { h with window := ?_ }
    intro w hw
    obtain ⟨old, hold, rfl⟩ := Option.map_eq_some_iff.mp hw
    exact (h.window old hold).shrink.setThreshold _

/-- Nor does a larger window touch timers and tick. -/
theorem Clocked.growWindow (h : f.Clocked s t) (now : Nat) : (f.growWindow now).Clocked s t := by
  unfold Fetcher.growWindow
  split
  · exact h
  · refine { h with window := ?_ }
    intro w hw
    obtain ⟨old, hold, rfl⟩ := Option.map_eq_some_iff.mp hw
    exact (h.window old hold).grow

/-- A chunk whose request was in vain loses its timer. -/
theorem ClockedBeside.timeOut (h : f.ClockedBeside s t chunk) {chunks : ChunkTable}
    (hchunks : t.chunks.timeOut? chunk = some chunks) (tally : Tally) :
    ({ f with
      transfer := some { t with chunks, tally }
      timers := f.timers.cancel chunk } : Fetcher).Clocked s { t with chunks, tally } := by
  have hbeside : ({ f with transfer := some { t with chunks, tally } } : Fetcher).ClockedBeside s
      { t with chunks, tally } chunk := by
    refine { h with
      transfer := rfl
      alive := ?_
      counted := h.counted.timeOut? hchunks
      armed := ?_ }
    · intro i
      show chunks.status? i ≠ _
      rw [ChunkTable.status?_timeOut? hchunks]
      split
      · simp
      · exact h.alive i
    · intro i hi
      show _ ↔ chunks.status? i = _
      rw [ChunkTable.status?_timeOut? hchunks, if_neg hi]
      exact h.armed i hi
  -- The chunk is not out any more, and its timer is cancelled last.
  refine hbeside.cancel ?_
  show chunks.status? chunk ≠ _
  rw [ChunkTable.status?_timeOut? hchunks]
  simp

/-- A setback of a chunk whose request is out puts it back in line, and the pacing tick is set for
it. -/
theorem onSetback_inOrder (h : f.ClockedBeside s t chunk) {chunks : ChunkTable}
    (hchunks : t.chunks.timeOut? chunk = some chunks) (tally : Tally) :
    (f.onSetback now t chunk tally).InOrder s := by
  have hclocked := (h.timeOut hchunks tally).shrinkWindow now
  unfold onSetback
  simp only [hchunks]
  exact scheduleNext_inOrder (hclocked.withRoundTrip _) now

/-- What holds of all chunks holds of all but one. -/
theorem Clocked.beside (h : f.Clocked s t) (chunk : Nat) : f.ClockedBeside s t chunk :=
  { h with armed := fun i _ => h.armed i }

/-- A setback of a chunk whose request is not out means nothing. -/
theorem Clocked.onSetback (h : f.Clocked s t) (hwakes : f.Wakes t) (tally : Tally) :
    (f.onSetback now t chunk tally).InOrder s := by
  cases hchunks : t.chunks.timeOut? chunk with
  | some chunks => exact onSetback_inOrder (h.beside chunk) hchunks tally
  | none =>
      unfold Fetcher.onSetback
      simp only [hchunks]
      exact .inr ⟨t, h, hwakes⟩

/-- A timer that has expired is gone before its chunk is put back in line. -/
theorem onTimer_inOrder (h : f.Clocked s t) (hwakes : f.Wakes t) :
    (f.onTimer now chunk).InOrder s := by
  rw [onTimer_eq h.transfer]
  have hmem : ∀ i, i ∈ (f.timers.expire chunk).chunks ↔ i ≠ chunk ∧ i ∈ f.timers.chunks :=
    fun i => Timers.mem_chunks_expire h.keyed
  cases hchunks : t.chunks.timeOut? chunk with
  | some chunks =>
      refine onSetback_inOrder (f := { f with timers := f.timers.expire chunk }) { h with
        keyed := h.keyed.expire chunk
        armed := ?_ } hchunks _
      intro i hi
      show i ∈ (f.timers.expire chunk).chunks ↔ _
      rw [hmem, and_iff_right hi]
      exact h.armed i
  | none =>
      -- The request is not out, so that there was no timer either.
      have hnot : t.chunks.status? chunk ≠ some .requested := by
        intro hrequested
        simp [ChunkTable.timeOut?, hrequested] at hchunks
      unfold onSetback
      simp only [hchunks]
      refine .inr ⟨t, { h with keyed := h.keyed.expire chunk, armed := ?_ }, hwakes⟩
      intro i
      show i ∈ (f.timers.expire chunk).chunks ↔ _
      rw [hmem, h.armed i]
      exact and_iff_right_of_imp fun hrequested hi => hnot (hi ▸ hrequested)

/-- A chunk 0 that tells no length is put back in line. -/
theorem onMalformedLength_inOrder (h : f.Clocked s t) (hwakes : f.Wakes t) :
    (f.onMalformedLength now t).InOrder s := by
  unfold onMalformedLength
  split
  · exact .inr ⟨t, h, hwakes⟩
  · rename_i chunks hchunks
    exact scheduleNext_inOrder ((h.beside 0).timeOut hchunks _) now

/-! ### Data -/

/-- A transfer whose bytes are all there leaves nothing armed. Else the next request is
scheduled. -/
theorem proceed_inOrder (h : f.Clocked s t) : (f.proceed now).InOrder s := by
  unfold proceed
  rw [h.transfer]
  simp only
  split
  · left
    unfold finish
    simp only [h.transfer]
    exact { h.toEquipped with phase := by simp [emit], timers := rfl, pacing := rfl }
  · exact scheduleNext_inOrder h now

/-- An accepted chunk loses its timer, if it still had one. -/
theorem afterData_inOrder (h : f.ClockedBeside s t chunk)
    (hreceived : t.chunks.status? chunk = some .received)
    (hg : f.afterData now chunk = .ok g) : g.InOrder s := by
  have hclocked := h.cancel (by simp [hreceived])
  obtain ⟨_, r, -, rfl⟩ := afterData_eq_ok_iff.mp hg
  exact proceed_inOrder ((hclocked.withRoundTrip r).growWindow now)

/-- A chunk that has arrived is not out any more, while its timer may still be armed. -/
theorem Clocked.noteNew (h : f.Clocked s t) {new : Bool}
    (hnew : (t.chunks.receive chunk).1 = .new new) :
    ({ f with transfer := some (noteNew t chunk) } : Fetcher).ClockedBeside s (noteNew t chunk)
        chunk ∧
      (Fetcher.noteNew t chunk).chunks.status? chunk = some .received := by
  have hstatus : ∀ i, (Fetcher.noteNew t chunk).chunks.status? i =
      if i = chunk then some .received else t.chunks.status? i :=
    ChunkTable.status?_receive hnew
  -- The timer of the chunk is still armed, so that the chunk is left out of account.
  refine ⟨{ h with
    transfer := rfl
    alive := ?_
    counted := h.counted.receive chunk
    armed := ?_ }, by rw [hstatus, if_pos rfl]⟩
  · intro i
    rw [hstatus]
    split
    · simp
    · exact h.alive i
  · intro i hi
    rw [hstatus, if_neg hi]
    exact h.armed i

/-- A table of its true size has lost the requests behind its end, and their timers with them. -/
theorem noteLength_clocked (h : ({ f with transfer := some t } : Fetcher).ClockedBeside s t 0)
    (hreceived : t.chunks.status? 0 = some .received) (length : Nat) :
    ∃ u, (f.noteLength t length).ClockedBeside s u 0 ∧ u.chunks.status? 0 = some .received := by
  unfold noteLength
  generalize hn : (length + f.settings.chunkPayload - 1) / f.settings.chunkPayload + 1 = n
  have hstatus := ChunkTable.status?_resize t.chunks n
  refine ⟨_, { h with
    transfer := rfl
    alive := ?_
    counted := h.counted.resize n
    keyed := (h.keyed.cancelAll _).1
    armed := ?_ }, ?_⟩
  · intro i
    show (t.chunks.resize n).2.status? i ≠ _
    have halive := h.alive i
    rw [hstatus]
    cases hold : t.chunks.status? i <;> split <;> simp_all
  · intro i hi
    show i ∈ (f.timers.cancelAll (t.chunks.requestedFrom n)).chunks ↔
      (t.chunks.resize n).2.status? i = _
    have harmed : i ∈ f.timers.chunks ↔ t.chunks.status? i = some .requested := h.armed i hi
    rw [Timers.mem_chunks_cancelAll h.keyed, harmed, ChunkTable.mem_requestedFrom, hstatus]
    by_cases hin : i < n
    · -- The chunk stays, and was none of those that are dropped.
      have hkept : ¬(n ≤ i ∧ t.chunks.status? i = some .requested) := by omega
      cases hold : t.chunks.status? i <;> simp_all
    · -- The chunk is dropped if its request was out.
      have hout : n ≤ i := by omega
      simp [hin, hout]
  · show (t.chunks.resize n).2.status? 0 = _
    have hpos : 0 < n := hn ▸ Nat.succ_pos _
    rw [hstatus, if_pos hpos, hreceived]
    rfl

/-- Data is accepted, counted or ignored. -/
theorem accept_inOrder (h : f.Clocked s t) (hwakes : f.Wakes t) {bytes : ByteArray}
    {length : Option Nat} (hlength : length.isSome → chunk = 0)
    (hg : f.accept now t chunk bytes length = .ok g) : g.InOrder s := by
  cases harrival : (t.chunks.receive chunk).1 with
  | duplicate =>
      rw [accept_duplicate harrival] at hg
      obtain rfl := Except.ok.inj hg
      exact .inr ⟨_, h.withTransfer rfl, hwakes⟩
  | ignored =>
      rw [accept_ignored harrival] at hg
      obtain rfl := Except.ok.inj hg
      exact .inr ⟨t, h, hwakes⟩
  | new new =>
      -- New data is noted first, and its timer is cancelled afterwards.
      obtain ⟨hbeside, hreceived⟩ := h.noteNew harrival
      cases length with
      | none =>
          rw [accept_part harrival] at hg
          have hpart : (f.onPart (noteNew t chunk) chunk bytes).ClockedBeside s _ chunk :=
            { hbeside with transfer := rfl }
          exact afterData_inOrder hpart hreceived hg
      | some length =>
          obtain rfl := hlength rfl
          rw [accept_length harrival] at hg
          split at hg
          · cases hg
          · obtain ⟨u, hresized, hstill⟩ := noteLength_clocked hbeside hreceived length
            exact afterData_inOrder hresized hstill hg

/-- After data, the fetcher waits for something or the transfer is over. -/
theorem onData_inOrder (h : f.Clocked s t) (hwakes : f.Wakes t) {bytes : ByteArray}
    (hg : f.onData now t chunk bytes = .ok g) : g.InOrder s := by
  unfold onData at hg
  split at hg
  · split at hg
    · obtain rfl := Except.ok.inj hg
      exact onMalformedLength_inOrder h hwakes
    · exact accept_inOrder h hwakes (fun _ => rfl) hg
  · exact accept_inOrder h hwakes (fun hsome => by cases hsome) hg

/-! ### Wakes -/

/-- A reply is for a running transfer, or it changes nothing. -/
theorem onReply_inOrder (h : f.Clocked s t) (hwakes : f.Wakes t) {r : Reply}
    (hg : f.onReply now r = .ok g) : g.InOrder s := by
  have hsame : f.InOrder s := .inr ⟨t, h, hwakes⟩
  unfold onReply at hg
  rw [if_neg (not_not_intro h.phase), h.transfer] at hg
  simp only at hg
  split at hg
  · -- The reply is under another name.
    obtain rfl := Except.ok.inj hg
    exact hsame
  · split at hg
    · exact onData_inOrder h hwakes hg
    · obtain rfl := Except.ok.inj hg
      exact h.onSetback hwakes _
    · obtain rfl := Except.ok.inj hg
      unfold onRejection
      split
      · exact .inl (still_reject h.toEquipped)
      · exact hsame

/-- **One wake** of a fetcher that is in order leaves it in order, whatever it is. -/
theorem handle_inOrder (h : f.InOrder s) (hbusy : f.isBusy = true) {w : Wake}
    (hg : f.handle now w = .ok g) : g.InOrder s := by
  have hphase : f.phase = .downloading := by simpa [isBusy] using hbusy
  obtain ⟨t, hclocked, hwakes⟩ := h.resolve_left fun hstill => hstill.phase hphase
  cases w with
  | reply r => exact onReply_inOrder hclocked hwakes hg
  | faceEnd =>
      obtain rfl := Except.ok.inj hg
      exact .inr ⟨t, { hclocked with }, hwakes⟩
  | timer chunk =>
      obtain rfl := Except.ok.inj hg
      exact onTimer_inOrder hclocked hwakes
  | tick =>
      obtain rfl := Except.ok.inj hg
      -- The tick itself is over, so that nothing is known to be scheduled any more.
      exact onTick_inOrder (f := { f with pacing := none }) (t := t) { hclocked with }

/-! ### The start -/

/-- A transfer of which nothing was requested. -/
def untouched (f : Fetcher) (now : Nat) (segment : Segment) : Transfer :=
  { segment
    name := segment.name
    chunks := ChunkTable.ofSize f.settings.chunkGuess
    started := now }

/-- A fetcher with a transfer of which nothing was requested. -/
def opened (f : Fetcher) (now : Nat) (segment : Segment) : Fetcher :=
  { f.clear with
    window := some (f.window.getD f.freshWindow)
    transfer := some (f.untouched now segment)
    phase := .downloading }

/-- A transfer begins with a request of chunk 0 and the first tick. -/
theorem begin_eq (f : Fetcher) (now : Nat) (segment : Segment) :
    f.begin now segment =
      { (f.opened now segment).request now 0 with pacing := some (Instant.after now firstTick) } :=
  rfl

/-- A transfer of which nothing was requested needs no timer. -/
theorem opened_clocked (h : f.Equipped s) (now : Nat) (segment : Segment) :
    (f.opened now segment).Clocked s (f.untouched now segment) := by
  have hstatus : ∀ i status, (f.untouched now segment).chunks.status? i = some status →
      status = .untouched := fun i status => ChunkTable.status?_ofSize
  -- A fresh table has no requested chunk, and no timer is armed.
  refine ⟨⟨⟨h.settings, h.fresh, ?_⟩, rfl, rfl, ?_, ChunkTable.counted_ofSize _,
    Timers.keyed_empty⟩, ?_⟩
  · intro w hw
    obtain rfl := Option.some.inj hw
    show (f.window.getD f.freshWindow).Sound
    cases hheld : f.window with
    | none => exact h.fresh
    | some w => exact h.window w hheld
  · intro i hi
    cases hstatus i _ hi
  · intro i
    refine iff_of_false List.not_mem_nil fun hi => ?_
    cases hstatus i _ hi

/-- The first request for chunk 0 is within any limit. -/
theorem opened_mayRequest (f : Fetcher) (now : Nat) (segment : Segment) :
    (f.opened now segment).mayRequest ((f.untouched now segment).chunks.attemptsOf 0) = true := by
  rw [untouched, ChunkTable.attemptsOf_ofSize]
  exact mayRequest_zero _

/-- A transfer starts with its first request and the first tick. -/
theorem begin_inOrder (h : f.Equipped s) (now : Nat) (segment : Segment) :
    (f.begin now segment).InOrder s := by
  have hopened := opened_clocked h now segment
  obtain ⟨u, hrequested⟩ := request_clocked hopened now (f.opened_mayRequest now segment)
  rw [begin_eq]
  exact .inr ⟨u, { hrequested with }, .inl rfl⟩

end

end Fetcher

end LayerCast
