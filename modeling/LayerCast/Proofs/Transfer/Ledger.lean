import LayerCast.Proofs.Transfer.Pace

/-!
# `LayerCast.Proofs.Transfer.Ledger`: a transfer is what it has taken

A run of a fetcher (`run`) is any list of happenings: wakes at any moments, with any replies, and
the owner and the face taking what is there for them. It keeps the log of all data that was taken,
the newest first.

`Ledger log b` says that the books `b` are what the log says. Nothing is taken twice, the bytes
still to come are the `balance` of the log, the parts are its data chunks, and the transfer is
finished exactly when the balance is 0. Entering what is taken preserves it (`Ledger.enter`), so
`run_ledger` has it for every run, whatever the network sends. A run does not fail as long as the
round trip estimate does not (`run_ok`).
-/

set_option autoImplicit false

namespace LayerCast

/-- Data that was taken: the number of its chunk and its bytes, the newest first. -/
abbrev ChunkLog := List (Nat × ByteArray)

namespace ChunkLog

/-- The numbers of the chunks that were taken. -/
def chunks (log : ChunkLog) : List Nat := log.map Prod.fst

/-- What is in the log was taken under its number. -/
theorem mem_chunks_of_mem {log : ChunkLog} {part : Nat × ByteArray} (h : part ∈ log) :
    part.1 ∈ log.chunks := List.mem_map_of_mem h

/-- A taken chunk is the last one or one of those before. -/
theorem mem_chunks_cons {i chunk : Nat} {bytes : ByteArray} {log : ChunkLog} :
    i ∈ chunks ((chunk, bytes) :: log) ↔ i = chunk ∨ i ∈ log.chunks := List.mem_cons

/-- No chunk is taken twice if the last one is new. -/
theorem nodup_chunks_cons {chunk : Nat} {bytes : ByteArray} {log : ChunkLog} :
    (chunks ((chunk, bytes) :: log)).Nodup ↔ chunk ∉ log.chunks ∧ log.chunks.Nodup :=
  List.nodup_cons

/-- The bytes still to come: -1 at first, to which chunk 0 adds the length and 1, and from which
every data chunk takes its size. -/
def balance : ChunkLog → Int
  | [] => -1
  | (chunk, bytes) :: log =>
    if chunk = 0 then balance log + (Books.announced bytes + 1) else balance log - bytes.size

/-- The data chunks of a log in the order in which a transfer keeps them. -/
def parts : ChunkLog → List (Nat × ByteArray)
  | [] => []
  | (chunk, bytes) :: log =>
    if chunk = 0 then parts log else Fetcher.insertPart chunk bytes (parts log)

/-! ### The order of the parts -/

/-- A new part is added to the others, wherever it is put. -/
theorem mem_insertPart {chunk : Nat} {bytes : ByteArray} {parts : List (Nat × ByteArray)}
    (hnew : ∀ part ∈ parts, part.1 ≠ chunk) {part : Nat × ByteArray} :
    part ∈ Fetcher.insertPart chunk bytes parts ↔ part = (chunk, bytes) ∨ part ∈ parts := by
  induction parts with
  | nil => simp [Fetcher.insertPart]
  | cons first rest ih =>
      have hfirst : first.1 ≠ chunk := hnew first List.mem_cons_self
      -- A part with the same number would be replaced, but there is none.
      rw [Fetcher.insertPart, if_neg hfirst]
      split
      · rw [List.mem_cons]
      · rw [List.mem_cons, List.mem_cons,
          ih fun part hpart => hnew part (List.mem_cons_of_mem _ hpart)]
        exact or_left_comm

/-- A new part finds its place in the descending order. -/
theorem pairwise_insertPart {chunk : Nat} (bytes : ByteArray) {parts : List (Nat × ByteArray)}
    (hnew : ∀ part ∈ parts, part.1 ≠ chunk) (horder : parts.Pairwise fun a b => b.1 < a.1) :
    (Fetcher.insertPart chunk bytes parts).Pairwise fun a b => b.1 < a.1 := by
  induction parts with
  | nil => exact List.pairwise_singleton _ _
  | cons first rest ih =>
      obtain ⟨hbelow, hrest⟩ := List.pairwise_cons.mp horder
      have hfirst : first.1 ≠ chunk := hnew first List.mem_cons_self
      have hnew' : ∀ part ∈ rest, part.1 ≠ chunk := fun part hpart =>
        hnew part (List.mem_cons_of_mem _ hpart)
      rw [Fetcher.insertPart, if_neg hfirst]
      split
      · -- The new part comes before all others.
        rename_i hlt
        refine List.pairwise_cons.mpr ⟨fun part hpart => ?_, horder⟩
        rcases List.mem_cons.mp hpart with rfl | hpart
        · exact hlt
        · exact Nat.lt_trans (hbelow part hpart) hlt
      · -- The new part finds its place behind the first one.
        rename_i hge
        refine List.pairwise_cons.mpr ⟨fun part hpart => ?_, ih hnew' hrest⟩
        rcases (mem_insertPart hnew').mp hpart with rfl | hpart
        · show chunk < first.1
          omega
        · exact hbelow part hpart

/-- The parts are the data chunks of the log. -/
theorem mem_parts {log : ChunkLog} (honce : log.chunks.Nodup) {part : Nat × ByteArray} :
    part ∈ log.parts ↔ part ∈ log ∧ part.1 ≠ 0 := by
  induction log generalizing part with
  | nil => simp [parts]
  | cons first rest ih =>
      obtain ⟨chunk, bytes⟩ := first
      obtain ⟨hnew, hrest⟩ := nodup_chunks_cons.mp honce
      -- Nothing is taken twice, so that no part has the number of the new one.
      have hfresh : ∀ part ∈ parts rest, part.1 ≠ chunk := by
        rintro part hpart rfl
        exact hnew (mem_chunks_of_mem ((ih hrest).mp hpart).1)
      unfold parts
      split
      · -- Chunk 0 is in the log and not among the parts.
        rename_i hzero
        rw [ih hrest, List.mem_cons]
        constructor
        · rintro ⟨hpart, hne⟩
          exact ⟨.inr hpart, hne⟩
        · rintro ⟨rfl | hpart, hne⟩
          · exact absurd hzero hne
          · exact ⟨hpart, hne⟩
      · rename_i hchunk
        rw [mem_insertPart hfresh, ih hrest, List.mem_cons]
        constructor
        · rintro (rfl | ⟨hpart, hne⟩)
          · exact ⟨.inl rfl, hchunk⟩
          · exact ⟨.inr hpart, hne⟩
        · rintro ⟨rfl | hpart, hne⟩
          · exact .inl rfl
          · exact .inr ⟨hpart, hne⟩

/-- A chunk that was not taken is not among the parts. -/
theorem ne_of_mem_parts {log : ChunkLog} (honce : log.chunks.Nodup) {chunk : Nat}
    (hnew : chunk ∉ log.chunks) : ∀ part ∈ log.parts, part.1 ≠ chunk := by
  rintro part hpart rfl
  exact hnew (mem_chunks_of_mem ((mem_parts honce).mp hpart).1)

/-- The parts stand in descending order. -/
theorem pairwise_parts {log : ChunkLog} (honce : log.chunks.Nodup) :
    log.parts.Pairwise fun a b => b.1 < a.1 := by
  induction log with
  | nil => exact List.Pairwise.nil
  | cons first rest ih =>
      obtain ⟨chunk, bytes⟩ := first
      obtain ⟨hnew, hrest⟩ := nodup_chunks_cons.mp honce
      unfold parts
      split
      · exact ih hrest
      · exact pairwise_insertPart bytes (ne_of_mem_parts hrest hnew) (ih hrest)

end ChunkLog

/-! ### Runs -/

/-- What can happen to a fetcher and its surroundings during a transfer. -/
inductive Happening where
  /-- Something wakes the fetcher at a moment. -/
  | wake (now : Nat) (w : Wake)
  /-- The owner takes the oldest event. -/
  | told
  /-- The face takes the interests. -/
  | sent

namespace Fetcher

/-- A fetcher after something has happened. -/
def undergo (f : Fetcher) : Happening → Checked Fetcher
  | .wake now w => f.handle now w
  | .told => .ok ((f.takeEvent?.map Prod.snd).getD f)
  | .sent => .ok { f with outbox := [] }

/-- The data that a fetcher takes from what happens. -/
def gains? (f : Fetcher) : Happening → Option (Nat × ByteArray)
  | .wake _ w => f.taken? w
  | _ => none

/-- A fetcher after all that has happened, with the log of what it has taken. -/
def run (f : Fetcher) (log : ChunkLog) : List Happening → Checked (ChunkLog × Fetcher)
  | [] => .ok (log, f)
  | h :: rest => do
    let g ← f.undergo h
    g.run ((f.gains? h).toList ++ log) rest

end Fetcher

/-! ### The ledger -/

/-- The log is entered in the books. -/
structure Posted (log : ChunkLog) (b : Books) : Prop where
  /-- No chunk was taken twice. -/
  once : log.chunks.Nodup
  /-- What has arrived in the table was taken, and what was taken has arrived in the table unless
  it lies behind its end. -/
  received : ∀ i, b.received i = true ↔ i < b.size ∧ i ∈ log.chunks
  /-- Nothing lies behind the end of the table before chunk 0 has told it. -/
  early : 0 ∉ log.chunks → ∀ i ∈ log.chunks, i < b.size
  remaining : b.remaining = log.balance
  parts : b.parts = log.parts

/-- The books say what the log says. -/
structure Ledger (log : ChunkLog) (b : Books) : Prop extends Posted log b where
  finished : b.finished = true ↔ log.balance = 0
  result : b.finished = true → b.result = some (b.segment, Fetcher.assemble log.parts)

namespace Ledger

/-- Books that were open are closed when the balance is 0. -/
theorem settle {log : ChunkLog} {b : Books} (h : Posted log b) (hrunning : b.finished = false) :
    Ledger log b.settle := by
  unfold Books.settle
  split
  · -- No byte is to come: the books are closed with the parts of the log.
    rename_i hzero
    exact {
      once := h.once
      received := h.received
      early := h.early
      remaining := h.remaining
      parts := h.parts
      finished := iff_of_true rfl (h.remaining ▸ hzero)
      result := fun _ => by rw [h.parts] }
  · rename_i hzero
    exact {
      toPosted := h
      finished := iff_of_false (by simp [hrunning]) (h.remaining ▸ hzero)
      result := fun hfinished => by simp [hrunning] at hfinished }

/-- A chunk that has not arrived in the table was not taken. -/
theorem not_mem {log : ChunkLog} {b : Books} (h : Ledger log b) {chunk : Nat}
    (hsize : chunk < b.size) (hnew : b.received chunk = false) : chunk ∉ log.chunks := by
  intro hmem
  rw [(h.received chunk).mpr ⟨hsize, hmem⟩] at hnew
  cases hnew

/-- Chunk 0 is entered in the log and in the books. -/
theorem noteLength {log : ChunkLog} {b : Books} (h : Ledger log b) (bytes : ByteArray)
    (hsize : 0 < b.size) (hnew : b.received 0 = false) :
    Posted ((0, bytes) :: log) (b.noteLength (Books.announced bytes)) where
  once := ChunkLog.nodup_chunks_cons.mpr ⟨h.not_mem hsize hnew, h.once⟩
  received i := by
    -- What was taken so far has arrived, because the end of the table was not known.
    have hbefore : b.received i = true ↔ i ∈ log.chunks :=
      (h.received i).trans (and_iff_right_of_imp (h.early (h.not_mem hsize hnew) i))
    simp only [Books.noteLength, ChunkLog.mem_chunks_cons, Bool.and_eq_true, Bool.or_eq_true,
      beq_iff_eq, decide_eq_true_eq, hbefore]
  early := fun hzero => absurd List.mem_cons_self hzero
  remaining := by
    rw [ChunkLog.balance, if_pos rfl, ← h.remaining]
    rfl
  parts := by
    rw [ChunkLog.parts, if_pos rfl, ← h.parts]
    rfl

/-- A data chunk is entered in the log and in the books. -/
theorem notePart {log : ChunkLog} {b : Books} (h : Ledger log b) {chunk : Nat}
    (bytes : ByteArray) (hchunk : chunk ≠ 0) (hsize : chunk < b.size)
    (hnew : b.received chunk = false) :
    Posted ((chunk, bytes) :: log) (b.notePart chunk bytes) where
  once := ChunkLog.nodup_chunks_cons.mpr ⟨h.not_mem hsize hnew, h.once⟩
  received i := by
    -- The chunk lies inside the table, so that it is both taken and there.
    simp only [Books.notePart, ChunkLog.mem_chunks_cons, Bool.or_eq_true, beq_iff_eq]
    rw [h.received i]
    constructor
    · rintro (rfl | ⟨hlt, hmem⟩)
      · exact ⟨hsize, .inl rfl⟩
      · exact ⟨hlt, .inr hmem⟩
    · rintro ⟨hlt, rfl | hmem⟩
      · exact .inl rfl
      · exact .inr ⟨hlt, hmem⟩
  early := by
    intro hzero i hi
    rcases List.mem_cons.mp hi with rfl | hi
    · exact hsize
    · exact h.early (fun hmem => hzero (List.mem_cons_of_mem _ hmem)) i hi
  remaining := by
    rw [ChunkLog.balance, if_neg hchunk, ← h.remaining]
    rfl
  parts := by
    rw [ChunkLog.parts, if_neg hchunk, ← h.parts]
    rfl

/-- Entering what is taken keeps the books in order. -/
theorem enter {log : ChunkLog} {b : Books} (h : Ledger log b) {chunk : Nat} (bytes : ByteArray)
    (hrunning : b.finished = false) (hsize : chunk < b.size) (hnew : b.received chunk = false) :
    Ledger ((chunk, bytes) :: log) (b.enter chunk bytes) := by
  unfold Books.enter
  split
  · rename_i hchunk
    subst hchunk
    exact settle (h.noteLength bytes hsize hnew) hrunning
  · rename_i hchunk
    exact settle (h.notePart bytes hchunk hsize hnew) hrunning

end Ledger

namespace Books

/-- Entering changes neither the name, nor the segment, nor the size of data chunks. -/
theorem after_fixed (b : Books) (gain : Option (Nat × ByteArray)) :
    (b.after gain).name = b.name ∧ (b.after gain).segment = b.segment ∧
      (b.after gain).payload = b.payload := by
  cases gain with
  | none => exact ⟨rfl, rfl, rfl⟩
  | some part =>
      obtain ⟨chunk, bytes⟩ := part
      -- Whichever chunk it was, and whether the books were closed by it or not.
      show (b.enter chunk bytes).name = _ ∧ (b.enter chunk bytes).segment = _ ∧
        (b.enter chunk bytes).payload = _
      unfold enter settle
      split <;> split <;> exact ⟨rfl, rfl, rfl⟩

end Books

namespace Fetcher

/-- A happening enters what it gains. -/
theorem undergo_books {f g : Fetcher} {b : Books} (hbooks : f.books? = some b) {h : Happening}
    (hg : f.undergo h = .ok g) : g.books? = some (b.after (f.gains? h)) := by
  cases h with
  | wake now w => exact handle_books hbooks hg
  | told =>
      obtain rfl := Except.ok.inj hg
      unfold takeEvent?
      split <;> exact hbooks
  | sent =>
      obtain rfl := Except.ok.inj hg
      exact hbooks

/-- A happening does not fail if data chunks have bytes and the estimate is tame, which it stays. -/
theorem undergo_ok {f : Fetcher} {b : Books} (hbooks : f.books? = some b)
    (hpayload : 0 < b.payload) (htame : f.roundTrip.Tame) {h : Happening}
    (hclock : ∀ now w, h = .wake now w → now ≤ RoundTrip.horizon) :
    ∃ g, f.undergo h = .ok g ∧ g.roundTrip.Tame := by
  cases h with
  | wake now w =>
      obtain ⟨t, ht, rfl⟩ : ∃ t, f.transfer = some t ∧ f.books t = b :=
        Option.map_eq_some_iff.mp hbooks
      have hnow := hclock now w rfl
      obtain ⟨g, hg⟩ := handle_ok hpayload htame hnow w
      exact ⟨g, hg, handle_tame ht htame hnow hg⟩
  | told =>
      refine ⟨_, rfl, ?_⟩
      unfold takeEvent?
      split <;> exact htame
  | sent => exact ⟨_, rfl, htame⟩

/-- What is gained has come as data under the name of the segment. -/
theorem of_gains? {f : Fetcher} {b : Books} (hbooks : f.books? = some b) {h : Happening}
    {part : Nat × ByteArray} (hgain : f.gains? h = some part) :
    ∃ now name, h = .wake now (.reply ⟨name, .data part.2⟩) ∧ name.segment = b.name ∧
      name.chunk = part.1 := by
  cases h with
  | wake now w =>
      obtain ⟨-, -, -, name, rfl, hname, hchunk⟩ := of_taken? hbooks hgain
      exact ⟨now, name, rfl, hname, hchunk⟩
  | told => cases hgain
  | sent => cases hgain

/-- One happening keeps the ledger. -/
theorem undergo_ledger {f : Fetcher} {b : Books} {log : ChunkLog} (hbooks : f.books? = some b)
    (hledger : Ledger log b) (h : Happening) :
    Ledger ((f.gains? h).toList ++ log) (b.after (f.gains? h)) := by
  cases hgain : f.gains? h with
  | none => exact hledger
  | some part =>
      obtain ⟨chunk, bytes⟩ := part
      cases h with
      | wake now w =>
          obtain ⟨hrunning, hsize, hnew, -⟩ := of_taken? hbooks hgain
          exact hledger.enter bytes hrunning hsize hnew
      | told => cases hgain
      | sent => cases hgain

/-- **A run does not fail** if data chunks have bytes, the estimate is tame, and all wakes come
within the horizon. -/
theorem run_ok (hs : List Happening) {f : Fetcher} {b : Books} (log : ChunkLog)
    (hbooks : f.books? = some b) (hpayload : 0 < b.payload) (htame : f.roundTrip.Tame)
    (hclock : ∀ now w, .wake now w ∈ hs → now ≤ RoundTrip.horizon) :
    ∃ log' g, f.run log hs = .ok (log', g) := by
  induction hs generalizing f b log with
  | nil => exact ⟨log, f, rfl⟩
  | cons h rest ih =>
      obtain ⟨f', hf', htame'⟩ := undergo_ok hbooks hpayload htame (h := h)
        fun now w hh => hclock now w (hh ▸ List.mem_cons_self)
      have hpayload' : 0 < (b.after (f.gains? h)).payload :=
        (b.after_fixed (f.gains? h)).2.2.symm ▸ hpayload
      obtain ⟨log', g, hrun⟩ := ih ((f.gains? h).toList ++ log) (undergo_books hbooks hf')
        hpayload' htame' fun now w hw => hclock now w (List.mem_cons_of_mem h hw)
      exact ⟨log', g, Checked.bind_eq_ok_iff.mpr ⟨f', hf', hrun⟩⟩

/-- **A run keeps its books**: at its end the books are what the log says. What it has added to the
log came as data under the name of the segment. -/
theorem run_ledger (hs : List Happening) {f g : Fetcher} {b : Books} {log log' : ChunkLog}
    (hbooks : f.books? = some b) (hledger : Ledger log b) (hrun : f.run log hs = .ok (log', g)) :
    ∃ b', g.books? = some b' ∧ Ledger log' b' ∧ b'.segment = b.segment ∧
      ∀ part ∈ log', part ∈ log ∨ ∃ now name, .wake now (.reply ⟨name, .data part.2⟩) ∈ hs ∧
        name.segment = b.name ∧ name.chunk = part.1 := by
  -- Induction on the happenings. The log grows with them, so the ledger is for any log.
  induction hs generalizing f b log with
  | nil =>
      obtain ⟨rfl, rfl⟩ := Prod.mk.inj (Except.ok.inj hrun)
      exact ⟨b, hbooks, hledger, rfl, fun _ hpart => .inl hpart⟩
  | cons h rest ih =>
      obtain ⟨f', hf', hrest⟩ := Checked.bind_eq_ok_iff.mp hrun
      obtain ⟨hname, hsegment, -⟩ := b.after_fixed (f.gains? h)
      obtain ⟨b', hgbooks, hgledger, hgsegment, hcame⟩ :=
        ih (undergo_books hbooks hf') (undergo_ledger hbooks hledger h) hrest
      refine ⟨b', hgbooks, hgledger, hgsegment.trans hsegment, fun part hpart => ?_⟩
      rcases hcame part hpart with hlog | ⟨now, name, hreply, hsegmentName, hchunk⟩
      · rcases List.mem_append.mp hlog with hgain | hlog
        · obtain ⟨now, name, rfl, hsegmentName, hchunk⟩ :=
            of_gains? hbooks (Option.mem_toList.mp hgain)
          exact .inr ⟨now, name, List.mem_cons_self, hsegmentName, hchunk⟩
        · exact .inl hlog
      · exact .inr ⟨now, name, List.mem_cons_of_mem _ hreply, hsegmentName.trans hname, hchunk⟩

/-! ### The start -/

/-- The books that a transfer starts with. -/
def freshBooks (f : Fetcher) (s : Segment) : Books :=
  { name := s.name
    segment := s
    payload := f.settings.chunkPayload
    size := f.settings.chunkGuess
    received := fun _ => false
    remaining := -1
    parts := []
    finished := false
    result := none }

/-- A transfer begins with fresh books. -/
theorem books?_begin (f : Fetcher) (now : Nat) (s : Segment) :
    (f.begin now s).books? = some (f.freshBooks s) := by
  have hreceived : (ChunkTable.ofSize f.settings.chunkGuess).hasReceived = fun _ => false :=
    funext (ChunkTable.hasReceived_ofSize _)
  -- The request for chunk 0 that a transfer begins with enters nothing.
  refine (books?_request _ now 0).trans ?_
  show some (Books.mk _ _ _ (ChunkTable.ofSize f.settings.chunkGuess).size
    (ChunkTable.ofSize f.settings.chunkGuess).hasReceived _ _ _ _) = _
  rw [ChunkTable.size_ofSize, hreceived]
  rfl

/-- A fetcher that is not busy starts a transfer with fresh books. An estimate that is tame
stays so. -/
theorem start?_books {f : Fetcher} (hidle : f.isBusy = false) (now : Nat) (s : Segment) :
    ∃ g, f.start? now s = some g ∧ g.books? = some (f.freshBooks s) ∧
      (f.roundTrip.Tame → g.roundTrip.Tame) :=
  ⟨f.begin now s, by rw [start?, hidle]; rfl, f.books?_begin now s,
    fun htame => begin_tame htame now s⟩

/-- Fresh books say that nothing was taken. -/
theorem freshBooks_ledger (f : Fetcher) (s : Segment) : Ledger [] (f.freshBooks s) where
  once := List.nodup_nil
  received i := by simp [freshBooks, ChunkLog.chunks]
  early := fun _ i hi => absurd hi List.not_mem_nil
  remaining := rfl
  parts := rfl
  finished := by simp [freshBooks, ChunkLog.balance]
  result := fun h => by simp [freshBooks] at h

end Fetcher

end LayerCast
