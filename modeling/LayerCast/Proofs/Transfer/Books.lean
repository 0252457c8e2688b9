import LayerCast.Proofs.Transfer.ChunkTable
import LayerCast.Proofs.Transfer.Handlers
import LayerCast.Proofs.Transfer.Tame

/-!
# `LayerCast.Proofs.Transfer.Books`: what the result of a transfer depends on

Whether a transfer is finished, and what it delivers, depends on little of a fetcher: the size of
the chunk table and what has arrived in it, the bytes still to come, the parts, and the result.
These are its `Books`. Windows, timers, round trips, requests, setbacks and rejections change
none of them (`books?_…`).

Data is entered into the books when it is new for the table (`takes?`), and `handle_books` says
that this is the only way in which one wake changes them. A wake does not fail if data chunks have
bytes and the round trip estimate is tame (`handle_ok`). None of this depends on what the network
sends.
-/

set_option autoImplicit false

namespace LayerCast

/-- What the result of a transfer depends on. -/
structure Books where
  /-- The name under which chunks are requested. -/
  name : String
  segment : Segment
  /-- Bytes in every data chunk but the last. -/
  payload : Nat
  /-- Size of the chunk table. -/
  size : Nat
  /-- The chunks that have arrived. -/
  received : Nat → Bool
  remaining : Int
  parts : List (Nat × ByteArray)
  finished : Bool
  /-- What is delivered. -/
  result : Option (Segment × ByteArray)

namespace Books

/-- The length that chunk 0 tells. -/
def announced (bytes : ByteArray) : Nat := (Length.decode? bytes).getD 0

/-- The books with chunk 0 entered. -/
def noteLength (b : Books) (length : Nat) : Books :=
  let size := (length + b.payload - 1) / b.payload + 1
  { b with
    size
    received := fun i => decide (i < size) && (i == 0 || b.received i)
    remaining := b.remaining + (length + 1) }

/-- The books with a data chunk entered. -/
def notePart (b : Books) (chunk : Nat) (bytes : ByteArray) : Books :=
  { b with
    received := fun i => i == chunk || b.received i
    remaining := b.remaining - bytes.size
    parts := Fetcher.insertPart chunk bytes b.parts }

/-- The books are closed when no byte is to come. -/
def settle (b : Books) : Books :=
  if b.remaining = 0 then
    { b with finished := true, result := some (b.segment, Fetcher.assemble b.parts) }
  else b

/-- The books after a chunk was taken. -/
def enter (b : Books) (chunk : Nat) (bytes : ByteArray) : Books :=
  (if chunk = 0 then b.noteLength (announced bytes) else b.notePart chunk bytes).settle

/-- The books after a wake that took this. -/
def after (b : Books) : Option (Nat × ByteArray) → Books
  | none => b
  | some (chunk, bytes) => b.enter chunk bytes

end Books

namespace Fetcher

/-- The books of a transfer. -/
def books (f : Fetcher) (t : Transfer) : Books :=
  { name := t.name
    segment := t.segment
    payload := f.settings.chunkPayload
    size := t.chunks.size
    received := t.chunks.hasReceived
    remaining := t.remaining
    parts := t.parts
    finished := f.isFinished
    result := f.completed.map fun d => (d.segment, d.bytes) }

/-- The books of the present or last transfer. -/
def books? (f : Fetcher) : Option Books := f.transfer.map f.books

/-! ### What leaves the books alone -/

/-- The chunk table may change as long as nothing arrives or is lost in it. -/
theorem books?_of_transfer {f : Fetcher} {t : Transfer} (ht : f.transfer = some t)
    {chunks : ChunkTable} {tally : Tally} {drained : Bool} (hsize : chunks.size = t.chunks.size)
    (hreceived : ∀ i, chunks.hasReceived i = t.chunks.hasReceived i) :
    ({ f with transfer := some { t with chunks, tally, drained } } : Fetcher).books? =
      f.books? := by
  -- Books compare what has arrived as a function of the number.
  have hreceived' : chunks.hasReceived = t.chunks.hasReceived := funext hreceived
  unfold books? books
  rw [ht]
  simp only [Option.map_some, hsize, hreceived']
  rfl

/-- The window does not belong to the books. -/
theorem books?_growWindow (f : Fetcher) (now : Nat) : (f.growWindow now).books? = f.books? := by
  unfold growWindow
  split <;> rfl

/-- Nor does what congestion makes of it. -/
theorem books?_shrinkWindow (f : Fetcher) (now : Nat) :
    (f.shrinkWindow now).books? = f.books? := by
  unfold shrinkWindow
  split <;> rfl

/-- Giving up loses nothing that has arrived, and finishes nothing. -/
theorem books?_reject (f : Fetcher) : f.reject.books? = f.books? := by
  -- What runs is not finished, and neither is it once it was given up.
  have hfinished : f.reject.isFinished = f.isFinished := by
    show ((if f.phase = .downloading then FetchPhase.aborted else f.phase) == .finished) = _
    split
    · rename_i h
      rw [isFinished, h]
      rfl
    · rfl
  show (f.transfer.map fun t => { t with chunks := t.chunks.abort }).map f.reject.books = _
  unfold books?
  rw [Option.map_map]
  -- The chunks that have arrived stay in the table.
  refine congrArg (f.transfer.map ·) (funext fun t => ?_)
  have hreceived : t.chunks.abort.hasReceived = t.chunks.hasReceived :=
    funext t.chunks.hasReceived_abort
  show Books.mk _ _ _ t.chunks.abort.size t.chunks.abort.hasReceived _ _ f.reject.isFinished _ = _
  rw [ChunkTable.size_abort, hreceived, hfinished]
  rfl

/-- A request touches neither the bytes nor the chunks that have arrived, even where it is
refused. -/
theorem books?_request (f : Fetcher) (now chunk : Nat) :
    (f.request now chunk).books? = f.books? := by
  unfold request
  split
  · rfl
  · rename_i t ht
    split
    · exact books?_reject f
    · split
      · rfl
      · rename_i chunks hchunks
        exact books?_of_transfer ht (ChunkTable.size_request? hchunks)
          (ChunkTable.hasReceived_request? hchunks)

/-- Whether a tick is set or the owner is told that none is needed, the books stay. -/
theorem books?_scheduleNext (f : Fetcher) (now : Nat) :
    (f.scheduleNext now).books? = f.books? := by
  unfold scheduleNext
  split
  · rfl
  · split
    · rfl
    · rename_i t ht
      split
      · rfl
      · split
        · rfl
        · exact books?_of_transfer ht rfl fun _ => rfl

/-- A tick can only request. -/
theorem books?_onTick (f : Fetcher) (now : Nat) : (f.onTick now).books? = f.books? := by
  unfold onTick
  split
  · rfl
  · split
    · rfl
    · split
      · exact (books?_scheduleNext _ now).trans (books?_request f now _)
      · exact books?_scheduleNext f now

/-- A chunk 0 without a length is treated like a timeout, and brings nothing. -/
theorem books?_onMalformedLength {f : Fetcher} {t : Transfer} (ht : f.transfer = some t)
    (now : Nat) : (f.onMalformedLength now t).books? = f.books? := by
  unfold onMalformedLength
  split
  · rfl
  · rename_i chunks hchunks
    exact (books?_scheduleNext _ now).trans (books?_of_transfer ht
      (ChunkTable.size_timeOut? hchunks) (ChunkTable.hasReceived_timeOut? hchunks))

/-- A request in vain puts its chunk back in line and brings nothing. -/
theorem books?_onSetback {f : Fetcher} {t : Transfer} (ht : f.transfer = some t)
    (now chunk : Nat) (tally : Tally) : (f.onSetback now t chunk tally).books? = f.books? := by
  unfold onSetback
  split
  · rfl
  · rename_i chunks hchunks
    exact (books?_scheduleNext _ now).trans <| (books?_shrinkWindow _ now).trans <|
      books?_of_transfer ht (ChunkTable.size_timeOut? hchunks)
        (ChunkTable.hasReceived_timeOut? hchunks)

/-- A refused segment keeps what has arrived of it. -/
theorem books?_onRejection (f : Fetcher) (t : Transfer) (chunk : Nat) :
    (f.onRejection t chunk).books? = f.books? := by
  unfold onRejection
  split
  · exact books?_reject f
  · rfl

/-- A timer that expires brings nothing. -/
theorem books?_onTimer (f : Fetcher) (now chunk : Nat) :
    (f.onTimer now chunk).books? = f.books? := by
  unfold onTimer
  simp only
  split
  · rfl
  · rename_i t ht
    exact books?_onSetback (f := { f with timers := f.timers.expire chunk }) ht now chunk _

/-! ### What is entered -/

/-- What follows accepted data closes the books when no byte is to come. -/
theorem books?_proceed (f : Fetcher) (now : Nat) :
    (f.proceed now).books? = f.books?.map Books.settle := by
  unfold proceed
  cases ht : f.transfer with
  | none => rw [books?_scheduleNext, books?, ht, Option.map_none, Option.map_none]
  | some t =>
      have hbooks : f.books? = some (f.books t) := by rw [books?, ht, Option.map_some]
      rw [hbooks, Option.map_some]
      unfold Books.settle
      show (if t.remaining = 0 then f.finish now else f.scheduleNext now).books? =
        some (if t.remaining = 0 then _ else f.books t)
      split
      · -- No byte is to come: what is delivered is what the settled books say.
        unfold finish books?
        rw [ht]
        simp only [emit, stopTimers, ht]
        rfl
      · rw [books?_scheduleNext, hbooks]

/-- Neither the estimate nor the window is part of the books. -/
theorem books?_afterData {f g : Fetcher} {now chunk : Nat} (hg : f.afterData now chunk = .ok g) :
    g.books? = f.books?.map Books.settle := by
  obtain ⟨_, r, -, rfl⟩ := afterData_eq_ok_iff.mp hg
  rw [books?_proceed, books?_growWindow]
  rfl

/-- Whether data is a chunk 0 that tells no length. -/
def isShort (chunk : Nat) (bytes : ByteArray) : Bool :=
  chunk == 0 && (Length.decode? bytes).isNone

/-- What a running transfer takes of data for one of its chunks: it has to be new for the table,
and chunk 0 has to tell a length. -/
def takes? (t : Transfer) (chunk : Nat) (bytes : ByteArray) : Option (Nat × ByteArray) :=
  if isShort chunk bytes then none
  else
    match (t.chunks.receive chunk).1 with
    | .new _ => some (chunk, bytes)
    | _ => none

/-- A new data chunk is entered with its bytes. -/
theorem books_notePart (f : Fetcher) (t : Transfer) (chunk : Nat) (bytes : ByteArray) {b : Bool}
    (h : (t.chunks.receive chunk).1 = .new b) :
    (f.onPart (noteNew t chunk) chunk bytes).books? = some ((f.books t).notePart chunk bytes) := by
  have hreceived : (t.chunks.receive chunk).2.hasReceived =
      fun i => i == chunk || t.chunks.hasReceived i :=
    funext (ChunkTable.hasReceived_receive h)
  show some (Books.mk _ _ _ (t.chunks.receive chunk).2.size
    (t.chunks.receive chunk).2.hasReceived _ _ _ _) = _
  rw [ChunkTable.size_receive, hreceived]
  rfl

/-- The length is entered together with the size that the table gets from it. -/
theorem books_noteLength (f : Fetcher) (t : Transfer) (length : Nat) {b : Bool}
    (h : (t.chunks.receive 0).1 = .new b) :
    (f.noteLength (noteNew t 0) length).books? = some ((f.books t).noteLength length) := by
  -- Chunk 0 arrives in the old table, of which the new one keeps its part.
  have hreceived : ∀ n, ((t.chunks.receive 0).2.resize n).2.hasReceived =
      fun i => decide (i < n) && (i == 0 || t.chunks.hasReceived i) := fun n => funext fun i => by
    rw [ChunkTable.hasReceived_resize, ChunkTable.hasReceived_receive h]
  show some (Books.mk _ _ _ ((t.chunks.receive 0).2.resize _).2.size
    ((t.chunks.receive 0).2.resize _).2.hasReceived _ _ _ _) = _
  rw [ChunkTable.size_resize, hreceived]
  rfl

/-- A data chunk that is new is entered. -/
theorem accept_part_books {f g : Fetcher} {t : Transfer} {now chunk : Nat} {bytes : ByteArray}
    (hchunk : chunk ≠ 0) {b : Bool} (h : (t.chunks.receive chunk).1 = .new b)
    (hg : f.accept now t chunk bytes none = .ok g) :
    g.books? = some ((f.books t).enter chunk bytes) := by
  rw [accept_part h] at hg
  rw [books?_afterData hg, books_notePart f t chunk bytes h, Books.enter, if_neg hchunk]
  rfl

/-- A chunk 0 that is new and tells a length is entered. -/
theorem accept_length_books {f g : Fetcher} {t : Transfer} {now : Nat} {bytes : ByteArray}
    {length : Nat} (hlength : Length.decode? bytes = some length) {b : Bool}
    (h : (t.chunks.receive 0).1 = .new b) (hg : f.accept now t 0 bytes (some length) = .ok g) :
    g.books? = some ((f.books t).enter 0 bytes) := by
  have hannounced : Books.announced bytes = length := by
    rw [Books.announced, hlength, Option.getD_some]
  rw [accept_length h] at hg
  split at hg
  · cases hg
  · rw [books?_afterData hg, books_noteLength f t length h, Books.enter, if_pos rfl, hannounced]
    rfl

/-- Data that is not new is at most counted. -/
theorem accept_old_books {f g : Fetcher} {t : Transfer} (ht : f.transfer = some t)
    {now chunk : Nat} {bytes : ByteArray} {length : Option Nat}
    (h : ∀ b, (t.chunks.receive chunk).1 ≠ .new b)
    (hg : f.accept now t chunk bytes length = .ok g) : g.books? = f.books? := by
  cases harrival : (t.chunks.receive chunk).1 with
  | duplicate =>
      rw [accept_duplicate harrival] at hg
      obtain rfl := Except.ok.inj hg
      exact books?_of_transfer ht rfl fun _ => rfl
  | ignored =>
      rw [accept_ignored harrival] at hg
      obtain rfl := Except.ok.inj hg
      rfl
  | new b => exact absurd harrival (h b)

/-- Data that the table has not had is taken, unless it is a chunk 0 without a length. -/
theorem takes?_of_new {t : Transfer} {chunk : Nat} {bytes : ByteArray}
    (hshort : isShort chunk bytes = false) {b : Bool} (h : (t.chunks.receive chunk).1 = .new b) :
    takes? t chunk bytes = some (chunk, bytes) := by
  rw [takes?, hshort, h]
  rfl

/-- Data that the table has had, or does not wait for, is not taken. -/
theorem takes?_of_old {t : Transfer} {chunk : Nat} (bytes : ByteArray)
    (h : ∀ b, (t.chunks.receive chunk).1 ≠ .new b) : takes? t chunk bytes = none := by
  unfold takes?
  split
  · rfl
  · split
    · rename_i b hb
      exact absurd hb (h b)
    · rfl

/-- Data that is new is entered, unless it is a chunk 0 that tells no length. -/
theorem onData_new_books {f g : Fetcher} {t : Transfer} (ht : f.transfer = some t)
    {now chunk : Nat} {bytes : ByteArray} {b : Bool} (hb : (t.chunks.receive chunk).1 = .new b)
    (hg : f.onData now t chunk bytes = .ok g) :
    g.books? = some ((f.books t).after (takes? t chunk bytes)) := by
  -- Chunk 0 tells the length if it holds one. Every other chunk is a part.
  by_cases hchunk : chunk = 0
  · subst hchunk
    rw [onData, if_pos rfl] at hg
    cases hlength : Length.decode? bytes with
    | none =>
        have hshort : isShort 0 bytes = true := by rw [isShort, hlength]; rfl
        rw [hlength] at hg
        obtain rfl := Except.ok.inj hg
        rw [books?_onMalformedLength ht, books?, ht, takes?, if_pos hshort]
        rfl
    | some length =>
        have hshort : isShort 0 bytes = false := by rw [isShort, hlength]; rfl
        rw [hlength] at hg
        rw [accept_length_books hlength hb hg, takes?_of_new hshort hb]
        rfl
  · have hshort : isShort chunk bytes = false := by simp [isShort, hchunk]
    rw [onData, if_neg hchunk] at hg
    rw [accept_part_books hchunk hb hg, takes?_of_new hshort hb]
    rfl

/-- Data that is taken is entered, and other data leaves the books alone. -/
theorem onData_books {f g : Fetcher} {t : Transfer} (ht : f.transfer = some t)
    {now chunk : Nat} {bytes : ByteArray} (hg : f.onData now t chunk bytes = .ok g) :
    g.books? = some ((f.books t).after (takes? t chunk bytes)) := by
  by_cases hexists : ∃ b, (t.chunks.receive chunk).1 = .new b
  · obtain ⟨b, hb⟩ := hexists
    exact onData_new_books ht hb hg
  · -- The data is not new. A short chunk 0 is put back in line, the rest at most counted.
    have hold : ∀ b, (t.chunks.receive chunk).1 ≠ .new b := fun b hb => hexists ⟨b, hb⟩
    have hbooks : f.books? = some (f.books t) := by rw [books?, ht, Option.map_some]
    rw [takes?_of_old bytes hold, Books.after, ← hbooks]
    unfold onData at hg
    split at hg
    · rename_i hchunk
      subst hchunk
      split at hg
      · obtain rfl := Except.ok.inj hg
        exact books?_onMalformedLength ht now
      · exact accept_old_books ht hold hg
    · exact accept_old_books ht hold hg

/-- What a wake takes: data that the running transfer takes, under the name of its segment. -/
def taken? (f : Fetcher) : Wake → Option (Nat × ByteArray)
  | .reply ⟨name, .data bytes⟩ =>
    f.transfer.bind fun t =>
      if f.isBusy && name.segment == t.name then takes? t name.chunk bytes else none
  | _ => none

/-- Nothing is taken under another name. -/
theorem taken?_of_name {f : Fetcher} {t : Transfer} (ht : f.transfer = some t) {name : ChunkName}
    (body : ReplyBody) (hname : name.segment ≠ t.name) :
    f.taken? (.reply ⟨name, body⟩) = none := by
  cases body <;> simp [taken?, ht, hname]

/-- Nothing is taken while no transfer runs. -/
theorem taken?_of_phase_ne {f : Fetcher} (hphase : f.phase ≠ .downloading) (w : Wake) :
    f.taken? w = none := by
  unfold taken?
  split
  · cases f.transfer <;> simp [isBusy, hphase]
  · rfl

/-- A running transfer takes what its table takes. -/
theorem taken?_data {f : Fetcher} {t : Transfer} (hphase : f.phase = .downloading)
    (ht : f.transfer = some t) {name : ChunkName} {bytes : ByteArray}
    (hname : name.segment = t.name) :
    f.taken? (.reply ⟨name, .data bytes⟩) = takes? t name.chunk bytes := by
  simp [taken?, ht, isBusy, hphase, hname]

/-- A reply is taken and entered, or leaves the books alone. -/
theorem onReply_books {f g : Fetcher} {t : Transfer} (ht : f.transfer = some t) {now : Nat}
    {r : Reply} (hg : f.onReply now r = .ok g) :
    g.books? = some ((f.books t).after (f.taken? (.reply r))) := by
  have hbooks : f.books? = some (f.books t) := by rw [books?, ht, Option.map_some]
  obtain ⟨name, body⟩ := r
  unfold onReply at hg
  by_cases hphase : f.phase ≠ .downloading
  · rw [if_pos hphase] at hg
    obtain rfl := Except.ok.inj hg
    rw [taken?_of_phase_ne hphase]
    exact hbooks
  · rw [if_neg hphase, ht] at hg
    by_cases hname : name.segment ≠ t.name
    · simp only [if_pos hname] at hg
      obtain rfl := Except.ok.inj hg
      rw [taken?_of_name ht body hname]
      exact hbooks
    · simp only [if_neg hname] at hg
      -- Under the name of the transfer only data can be taken.
      cases body with
      | data bytes =>
          rw [taken?_data (Decidable.of_not_not hphase) ht (Decidable.of_not_not hname)]
          exact onData_books ht hg
      | nack reason =>
          cases reason with
          | congestion =>
              obtain rfl := Except.ok.inj hg
              exact (books?_onSetback ht now _ _).trans hbooks
          | rejected =>
              obtain rfl := Except.ok.inj hg
              exact (books?_onRejection f t _).trans hbooks

/-- **One wake of a fetcher** enters what it takes and changes the books in no other way. -/
theorem handle_books {f g : Fetcher} {b : Books} (hbooks : f.books? = some b) {now : Nat}
    {w : Wake} (hg : f.handle now w = .ok g) : g.books? = some (b.after (f.taken? w)) := by
  obtain ⟨t, ht, rfl⟩ : ∃ t, f.transfer = some t ∧ f.books t = b := Option.map_eq_some_iff.mp hbooks
  cases w with
  | reply r => exact onReply_books ht hg
  | faceEnd =>
      obtain rfl := Except.ok.inj hg
      exact hbooks
  | timer chunk =>
      obtain rfl := Except.ok.inj hg
      exact (books?_onTimer f now chunk).trans hbooks
  | tick =>
      obtain rfl := Except.ok.inj hg
      exact (books?_onTick _ now).trans hbooks

/-! ### Success -/

section
variable {f : Fetcher} {now : Nat}

/-- The estimate of the round trip is the only part of this that can fail. -/
theorem afterData_ok (htame : f.roundTrip.Tame) (hnow : now ≤ RoundTrip.horizon) (chunk : Nat) :
    ∃ g, f.afterData now chunk = .ok g := by
  obtain ⟨sample?, r, hack, -⟩ := htame.ack chunk hnow
  exact ⟨_, afterData_eq_ok_iff.mpr ⟨sample?, r, hack, rfl⟩⟩

/-- Data is accepted if data chunks have bytes and the estimate does not fail. -/
theorem accept_ok (hpayload : 0 < f.settings.chunkPayload) (htame : f.roundTrip.Tame)
    (hnow : now ≤ RoundTrip.horizon) (t : Transfer) (chunk : Nat) (bytes : ByteArray)
    (length : Option Nat) : ∃ g, f.accept now t chunk bytes length = .ok g := by
  cases harrival : (t.chunks.receive chunk).1 with
  | duplicate => exact ⟨_, accept_duplicate harrival⟩
  | ignored => exact ⟨f, accept_ignored harrival⟩
  | new b =>
      cases length with
      | none =>
          rw [accept_part harrival]
          exact afterData_ok (f := f.onPart _ chunk bytes) htame hnow chunk
      | some length =>
          rw [accept_length harrival, if_neg (Nat.ne_of_gt hpayload)]
          exact afterData_ok (f := f.noteLength _ length) htame hnow chunk

/-- Data of a chunk is handled, whatever it holds. -/
theorem onData_ok (hpayload : 0 < f.settings.chunkPayload) (htame : f.roundTrip.Tame)
    (hnow : now ≤ RoundTrip.horizon) (t : Transfer) (chunk : Nat) (bytes : ByteArray) :
    ∃ g, f.onData now t chunk bytes = .ok g := by
  unfold onData
  split
  · split
    · exact ⟨_, rfl⟩
    · exact accept_ok hpayload htame hnow t 0 bytes _
  · exact accept_ok hpayload htame hnow t chunk bytes none

/-- A reply is handled, whether it is data or a refusal. -/
theorem onReply_ok (hpayload : 0 < f.settings.chunkPayload) (htame : f.roundTrip.Tame)
    (hnow : now ≤ RoundTrip.horizon) (r : Reply) : ∃ g, f.onReply now r = .ok g := by
  unfold onReply
  split
  · exact ⟨f, rfl⟩
  · split
    · exact ⟨f, rfl⟩
    · split
      · exact ⟨f, rfl⟩
      · split
        · exact onData_ok hpayload htame hnow _ _ _
        · exact ⟨_, rfl⟩
        · exact ⟨_, rfl⟩

/-- **A wake succeeds** if data chunks have bytes and the estimate does not fail. -/
theorem handle_ok (hpayload : 0 < f.settings.chunkPayload) (htame : f.roundTrip.Tame)
    (hnow : now ≤ RoundTrip.horizon) (w : Wake) : ∃ g, f.handle now w = .ok g := by
  cases w with
  | reply r => exact onReply_ok hpayload htame hnow r
  | _ => exact ⟨_, rfl⟩

end

/-! ### What was taken -/

/-- What is taken is data under the name of the segment, for a chunk of the table that has not
arrived, of a transfer that is not finished. -/
theorem of_taken? {f : Fetcher} {b : Books} (hbooks : f.books? = some b) {w : Wake}
    {part : Nat × ByteArray} (h : f.taken? w = some part) :
    b.finished = false ∧ part.1 < b.size ∧ b.received part.1 = false ∧
      ∃ name, w = .reply ⟨name, .data part.2⟩ ∧ name.segment = b.name ∧ name.chunk = part.1 := by
  obtain ⟨t, ht, rfl⟩ : ∃ t, f.transfer = some t ∧ f.books t = b := Option.map_eq_some_iff.mp hbooks
  unfold taken? at h
  split at h
  · rename_i name bytes'
    rw [ht, Option.bind_some] at h
    split at h
    · rename_i hbusy
      rw [Bool.and_eq_true, beq_iff_eq] at hbusy
      unfold takes? at h
      split at h
      · cases h
      · split at h
        · rename_i new hnew
          cases h
          -- Data is new for a chunk that was requested and has not arrived.
          have hstatus := ChunkTable.new_iff.mp ⟨new, hnew⟩
          refine ⟨?_, ?_, ?_, name, rfl, hbusy.2, rfl⟩
          · have hphase : f.phase = .downloading := by simpa [isBusy] using hbusy.1
            show (f.phase == .finished) = false
            rw [hphase]
            rfl
          · rcases hstatus with hs | hs <;> exact ChunkTable.lt_size_of_status? hs
          · show (t.chunks.status? name.chunk == some .received) = false
            rcases hstatus with hs | hs <;> rw [hs] <;> rfl
        · cases h
    · cases h
  · cases h

end Fetcher

end LayerCast
