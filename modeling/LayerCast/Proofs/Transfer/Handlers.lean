import LayerCast.Transfer.Fetcher

/-!
# `LayerCast.Proofs.Transfer.Handlers`: what the handlers of a fetcher come to

Equations for the handlers, which the proofs about fetchers rewrite with. Accepted data is handled
in three steps, and each has a name here: the arrival is noted (`noteNew`), the length or the bytes
are noted (`noteLength`, `Fetcher.onPart`), and the transfer ends or goes on
(`Fetcher.afterData`), unless the round trip estimate fails.
-/

set_option autoImplicit false

namespace LayerCast.Fetcher

/-! ### Requesting and scheduling -/

/-- A chunk that was never requested may be. -/
theorem mayRequest_zero (f : Fetcher) : f.mayRequest 0 = true := by
  unfold mayRequest
  split
  · exact decide_eq_true (Nat.zero_le _)
  · rfl

/-- Nothing is scheduled for a transfer that does not run. -/
theorem scheduleNext_of_phase_ne {f : Fetcher} (h : f.phase ≠ .downloading) (now : Nat) :
    f.scheduleNext now = f := by
  unfold scheduleNext
  rw [if_pos (Or.inl h)]

/-! ### Giving up -/

/-- What was given up does not run. -/
theorem phase_abort_ne (f : Fetcher) : f.abort.phase ≠ .downloading := by
  show (if f.phase = .downloading then FetchPhase.aborted else f.phase) ≠ .downloading
  split
  · decide
  · assumption

/-- A transfer that gives itself up while it runs is aborted. -/
theorem phase_reject {f : Fetcher} (h : f.phase = .downloading) : f.reject.phase = .aborted :=
  if_pos h

/-! ### Setbacks -/

/-- A timer that has expired is a setback of its chunk. -/
theorem onTimer_eq {f : Fetcher} {t : Transfer} (ht : f.transfer = some t) (now chunk : Nat) :
    f.onTimer now chunk =
      ({ f with timers := f.timers.expire chunk } : Fetcher).onSetback now t chunk
        { t.tally with timeouts := t.tally.timeouts + 1 } := by
  unfold onTimer
  simp only [ht]

/-! ### Accepting data -/

/-- A transfer that has noted the arrival of a chunk. -/
def noteNew (t : Transfer) (chunk : Nat) : Transfer :=
  { t with
    chunks := (t.chunks.receive chunk).2
    tally := { t.tally with data := t.tally.data + 1 } }

/-- A fetcher that has learnt the length of a transfer. -/
def noteLength (f : Fetcher) (t : Transfer) (length : Nat) : Fetcher :=
  let resized :=
    t.chunks.resize ((length + f.settings.chunkPayload - 1) / f.settings.chunkPayload + 1)
  { f with
    transfer := some { t with chunks := resized.2, remaining := t.remaining + (length + 1) }
    timers := f.timers.cancelAll resized.1 }

/-- A length is noted unless data chunks have no bytes. -/
theorem onLength_eq (f : Fetcher) (t : Transfer) (length : Nat) :
    f.onLength t length =
      if f.settings.chunkPayload = 0 then .error .divByZero else .ok (f.noteLength t length) := by
  unfold onLength Checked.ceilDiv
  split <;> rfl

/-- A chunk that comes again is counted. -/
theorem accept_duplicate {f : Fetcher} {t : Transfer} {now chunk : Nat} {bytes : ByteArray}
    {length : Option Nat} (h : (t.chunks.receive chunk).1 = .duplicate) :
    f.accept now t chunk bytes length = .ok { f with transfer := some { t with
      tally := { t.tally with duplicates := t.tally.duplicates + 1 } } } := by
  unfold accept
  split <;> simp_all

/-- A chunk that nobody waits for is not even counted. -/
theorem accept_ignored {f : Fetcher} {t : Transfer} {now chunk : Nat} {bytes : ByteArray}
    {length : Option Nat} (h : (t.chunks.receive chunk).1 = .ignored) :
    f.accept now t chunk bytes length = .ok f := by
  unfold accept
  split <;> simp_all

/-- A new data chunk puts its bytes among the parts. -/
theorem accept_part {f : Fetcher} {t : Transfer} {now chunk : Nat} {bytes : ByteArray}
    {b : Bool} (h : (t.chunks.receive chunk).1 = .new b) :
    f.accept now t chunk bytes none =
      (f.onPart (noteNew t chunk) chunk bytes).afterData now chunk := by
  have hpair : t.chunks.receive chunk = (.new b, (t.chunks.receive chunk).2) := by rw [← h]
  unfold accept noteNew
  rw [hpair]
  rfl

/-- A new chunk 0 gives the table its true size, unless data chunks have no bytes. -/
theorem accept_length {f : Fetcher} {t : Transfer} {now chunk : Nat} {bytes : ByteArray}
    {length : Nat} {b : Bool} (h : (t.chunks.receive chunk).1 = .new b) :
    f.accept now t chunk bytes (some length) =
      if f.settings.chunkPayload = 0 then .error .divByZero
      else (f.noteLength (noteNew t chunk) length).afterData now chunk := by
  have hpair : t.chunks.receive chunk = (.new b, (t.chunks.receive chunk).2) := by rw [← h]
  -- Only what follows the length needs the new table.
  have haccept : f.accept now t chunk bytes (some length)
      = (f.onLength (noteNew t chunk) length >>= fun g => g.afterData now chunk) := by
    unfold accept noteNew
    rw [hpair]
  rw [haccept, onLength_eq]
  split <;> rfl

/-- **What follows the bookkeeping for accepted data**: the estimate may fail, and if it does not,
the transfer ends or goes on with the estimate. -/
theorem afterData_eq_ok_iff {f g : Fetcher} {now chunk : Nat} :
    f.afterData now chunk = .ok g ↔
      ∃ sample? r, f.roundTrip.ack chunk now = .ok (sample?, r) ∧
        g = ({ f with
          timers := f.timers.cancel chunk
          roundTrip := r }.growWindow now).proceed now := by
  unfold afterData
  rw [Checked.bind_eq_ok_iff]
  constructor
  · rintro ⟨⟨sample?, r⟩, hack, hg⟩
    exact ⟨sample?, r, hack, (Except.ok.inj hg).symm⟩
  · rintro ⟨sample?, r, hack, rfl⟩
    exact ⟨(sample?, r), hack, rfl⟩

end LayerCast.Fetcher
