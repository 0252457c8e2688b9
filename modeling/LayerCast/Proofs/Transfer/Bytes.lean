import LayerCast.Proofs.Transfer.Events

/-!
# `LayerCast.Proofs.Transfer.Bytes`: every byte is accounted for

A transfer ends when the bytes still to come are 0. `bytes_accounted` says what that number is on
any network, one that answers with payloads of the wrong length or under the wrong numbers
included: the length that chunk 0 has told, less the sizes of the data chunks that were taken. So
what a finished transfer delivers has that length, though not necessarily the right content.

The ledger of a single transfer is carried through whole lives of a fetcher here (`Accounted`). It
no longer says what is delivered, because the owner may have taken that. What was delivered is known
from `Tells`.
-/

set_option autoImplicit false

namespace LayerCast

namespace ChunkLog

/-! ### The bytes of a log -/

/-- The length that chunk 0 tells, or -1 if it was not taken. -/
def announced (log : ChunkLog) : Int :=
  match log.lookup 0 with
  | some bytes => Books.announced bytes
  | none => -1

/-- The number of bytes in the data chunks. -/
def payload (log : ChunkLog) : Nat := ((log.filter (·.1 ≠ 0)).map (·.2.size)).sum

variable {log : ChunkLog} {chunk : Nat}

/-- Chunk 0 announces the length. -/
theorem announced_cons_zero (bytes : ByteArray) (log : ChunkLog) :
    announced ((0, bytes) :: log) = Books.announced bytes := by
  simp [announced]

/-- A data chunk announces nothing. -/
theorem announced_cons (hchunk : chunk ≠ 0) (bytes : ByteArray) (log : ChunkLog) :
    announced ((chunk, bytes) :: log) = announced log := by
  have hne : (0 == chunk) = false := beq_eq_false_iff_ne.mpr (Ne.symm hchunk)
  simp [announced, List.lookup_cons, hne]

/-- Chunk 0 is not part of the content. -/
theorem payload_cons_zero (bytes : ByteArray) (log : ChunkLog) :
    payload ((0, bytes) :: log) = payload log := by
  simp [payload]

/-- A data chunk adds its bytes to the content. -/
theorem payload_cons (hchunk : chunk ≠ 0) (bytes : ByteArray) (log : ChunkLog) :
    payload ((chunk, bytes) :: log) = bytes.size + payload log := by
  simp [payload, hchunk]

/-- Before chunk 0 is taken the length counts as -1. -/
theorem announced_of_not_mem (h : 0 ∉ log.chunks) : log.announced = -1 := by
  have hnone : log.lookup 0 = none := by
    rw [List.lookup_eq_none_iff]
    intro part hpart
    have hne : part.1 ≠ 0 := fun hzero => h (hzero ▸ mem_chunks_of_mem hpart)
    simpa using Ne.symm hne
  rw [announced, hnone]

/-- A chunk 0 that is taken once announces the length, wherever it stands in the log. -/
theorem announced_of_mem (honce : log.chunks.Nodup) {bytes : ByteArray} (h : (0, bytes) ∈ log) :
    log.announced = Books.announced bytes := by
  induction log with
  | nil => cases h
  | cons first rest ih =>
      obtain ⟨hnew, hrest⟩ := nodup_chunks_cons.mp honce
      rcases List.mem_cons.mp h with rfl | hmem
      · exact announced_cons_zero bytes rest
      · -- Chunk 0 was taken before, so that it was not taken again.
        have hne : first.1 ≠ 0 := fun hzero => hnew (hzero ▸ mem_chunks_of_mem hmem)
        exact (announced_cons hne first.2 rest).trans (ih hrest hmem)

/-- The bytes still to come are what chunk 0 has told less what has come. -/
theorem balance_eq_sub (honce : log.chunks.Nodup) :
    log.balance = log.announced - log.payload := by
  induction log with
  | nil => rfl
  | cons first rest ih =>
      obtain ⟨chunk, bytes⟩ := first
      obtain ⟨hnew, hrest⟩ := nodup_chunks_cons.mp honce
      by_cases hchunk : chunk = 0
      · -- Before chunk 0 was taken, the length counted as -1.
        subst hchunk
        rw [balance, if_pos rfl, ih hrest, announced_of_not_mem hnew, announced_cons_zero,
          payload_cons_zero]
        omega
      · rw [balance, if_neg hchunk, ih hrest, announced_cons hchunk, payload_cons hchunk]
        omega

/-- As long as chunk 0 was not taken, bytes are still to come. -/
theorem mem_of_balance_eq_zero (honce : log.chunks.Nodup) (hbalance : log.balance = 0) :
    0 ∈ log.chunks := by
  by_contra hmissing
  rw [balance_eq_sub honce, announced_of_not_mem hmissing] at hbalance
  omega

/-! ### The bytes of the parts -/

/-- The assembled bytes are as many as there are in all parts. -/
theorem size_assemble (parts : List (Nat × ByteArray)) :
    (Fetcher.assemble parts).size = (parts.map (·.2.size)).sum := by
  induction parts with
  | nil => rfl
  | cons part rest ih =>
      show (Fetcher.assemble rest ++ part.2).size = _
      rw [ByteArray.size_append, ih, List.map_cons, List.sum_cons, Nat.add_comm]

/-- A new part adds its bytes, wherever it finds its place. -/
theorem sum_insertPart {chunk : Nat} (bytes : ByteArray) {parts : List (Nat × ByteArray)}
    (hnew : ∀ part ∈ parts, part.1 ≠ chunk) :
    ((Fetcher.insertPart chunk bytes parts).map (·.2.size)).sum =
      bytes.size + (parts.map (·.2.size)).sum := by
  induction parts with
  | nil => rfl
  | cons first rest ih =>
      rw [Fetcher.insertPart, if_neg (hnew first List.mem_cons_self)]
      split
      · rw [List.map_cons, List.sum_cons]
      · have hrest := ih fun part hpart => hnew part (List.mem_cons_of_mem _ hpart)
        rw [List.map_cons, List.sum_cons, hrest, List.map_cons, List.sum_cons]
        omega

/-- The parts of a log hold the bytes of its data chunks. -/
theorem size_assemble_parts (honce : log.chunks.Nodup) :
    (Fetcher.assemble log.parts).size = log.payload := by
  rw [size_assemble]
  induction log with
  | nil => rfl
  | cons first rest ih =>
      obtain ⟨chunk, bytes⟩ := first
      obtain ⟨hnew, hrest⟩ := nodup_chunks_cons.mp honce
      have ih := ih hrest
      unfold parts
      split
      · rename_i hzero
        subst hzero
        rw [ih, payload_cons_zero]
      · rename_i hchunk
        rw [sum_insertPart bytes (ne_of_mem_parts hrest hnew), ih, payload_cons hchunk]

end ChunkLog

/-! ### The ledger of a life -/

/-- What the books say about a transfer whose delivery may have been taken. -/
structure Accounted (log : ChunkLog) (b : Books) : Prop extends Posted log b where
  finished : b.finished = true ↔ log.balance = 0
  /-- The table has the size that chunk 0 has told. -/
  sized : ∀ bytes, (0, bytes) ∈ log →
    b.size = (Books.announced bytes + b.payload - 1) / b.payload + 1

/-- Only chunk 0 changes the size of the table. -/
theorem Books.size_enter (b : Books) (chunk : Nat) (bytes : ByteArray) :
    (b.enter chunk bytes).size =
      if chunk = 0 then (Books.announced bytes + b.payload - 1) / b.payload + 1 else b.size := by
  unfold Books.enter Books.settle
  split <;> split <;> rfl

/-- Entering what is taken keeps the account. -/
theorem Accounted.enter {log : ChunkLog} {b : Books} (h : Accounted log b) {chunk : Nat}
    (bytes : ByteArray) (hrunning : b.finished = false) (hsize : chunk < b.size)
    (hnew : b.received chunk = false) :
    Accounted ((chunk, bytes) :: log) (b.enter chunk bytes) := by
  have hledger : Ledger log b :=
    { h with result := fun hfinished => by simp [hrunning] at hfinished }
  refine { hledger.enter bytes hrunning hsize hnew with sized := ?_ }
  intro bytes' hmem
  have hpayload : (b.enter chunk bytes).payload = b.payload :=
    (b.after_fixed (some (chunk, bytes))).2.2
  rw [Books.size_enter, hpayload]
  rcases List.mem_cons.mp hmem with hfirst | hlater
  · obtain ⟨rfl, rfl⟩ := Prod.mk.inj hfirst
    rw [if_pos rfl]
  · -- Chunk 0 was taken before, so that this is a data chunk.
    have hchunk : chunk ≠ 0 := by
      rintro rfl
      exact hledger.not_mem hsize hnew (ChunkLog.mem_chunks_of_mem hlater)
    rw [if_neg hchunk, h.sized bytes' hlater]

namespace Fetcher

variable {d d' : Diary} {f g : Fetcher} {settings : FetchSettings}

/-- The diary and the books agree about the data. -/
def Accounts (d : Diary) (f : Fetcher) : Prop := ∀ b, f.books? = some b → Accounted d.taken b

/-- A wake enters in the books what the diary notes. -/
theorem Accounts.wake (h : Accounts d f) {b : Books} (hbooks : f.books? = some b) {now : Nat}
    {w : Wake} (hg : f.handle now w = .ok g) (sent : List Interest) (phase : FetchPhase) :
    Accounts (d.wake (f.taken? w) sent phase) g := by
  intro b' hb'
  obtain rfl : b.after (f.taken? w) = b' :=
    Option.some.inj ((handle_books hbooks hg).symm.trans hb')
  cases hgain : f.taken? w with
  | none => exact h b hbooks
  | some part =>
      obtain ⟨hrunning, hsize, hnew, -⟩ := of_taken? hbooks hgain
      exact (h b hbooks).enter part.2 hrunning hsize hnew

/-- A transfer starts with an empty account. -/
theorem accounts_begin (f : Fetcher) (now : Nat) (segment : Segment) (sent : List Interest)
    (phase : FetchPhase) :
    Accounts (({} : Diary).wake none sent phase) (f.begin now segment) := by
  intro b hb
  obtain rfl : f.freshBooks segment = b :=
    Option.some.inj ((f.books?_begin now segment).symm.trans hb)
  exact { f.freshBooks_ledger segment with
    sized := fun bytes hmem => absurd hmem List.not_mem_nil }

/-- **One call** keeps the account. -/
theorem Accounts.perform (h : Accounts d f) (horder : f.InOrder settings) {call : Call}
    (hg : f.perform call = .ok g) : Accounts (note d f call g) g := by
  cases call with
  | start now segment =>
      rcases perform_start_cases hg d with ⟨rfl, hnote⟩ | ⟨-, rfl, hnote⟩
      · rw [hnote]
        exact h
      · rw [hnote]
        exact accounts_begin f now segment _ _
  | wake now w =>
      rcases perform_wake_cases horder hg d with ⟨rfl, hnote⟩ | ⟨-, ⟨t, ht⟩, hhandled, hnote⟩
      · rw [hnote]
        exact h
      · rw [hnote]
        exact h.wake (congrArg (Option.map f.books) ht) hhandled _ _
  | abort =>
      obtain rfl := Except.ok.inj hg
      -- Giving up is the same for the books whether the owner does it or the transfer itself.
      intro b hb
      exact h b ((books?_reject f).symm.trans hb)
  | reset =>
      obtain rfl := Except.ok.inj hg
      intro b hb
      cases hb
  | takeEvent =>
      obtain rfl := Except.ok.inj hg
      unfold takeEvent?
      split <;> exact h
  | takeCompleted =>
      obtain rfl := Except.ok.inj hg
      -- The account does not say whether the delivery is still there.
      intro b hb
      obtain ⟨t, ht, rfl⟩ := Option.map_eq_some_iff.mp hb
      exact { h (f.books t) (congrArg (Option.map f.books) ht) with }
  | sent closed =>
      obtain rfl := Except.ok.inj hg
      exact h
  | releaseWindow =>
      obtain rfl := Except.ok.inj hg
      exact h
  | installWindow w _ =>
      obtain rfl := Except.ok.inj hg
      exact h

/-- What the diary and the books agree about, they agree about for the present transfer. -/
theorem Accounts.of_transfer (h : Accounts d f) {t : Transfer} (ht : f.transfer = some t) :
    Accounted d.taken (f.books t) :=
  h (f.books t) (congrArg (Option.map f.books) ht)

/-- A transfer is finished when no byte is to come. -/
theorem Accounts.finished_iff (h : Accounts d f) {t : Transfer} (ht : f.transfer = some t) :
    f.phase = .finished ↔ d.taken.balance = 0 := by
  refine Iff.trans ?_ (h.of_transfer ht).finished
  show f.phase = .finished ↔ (f.phase == .finished) = true
  exact beq_iff_eq.symm

/-- A chunk that has arrived was taken. -/
theorem Accounts.mem_of_received (h : Accounts d f) {t : Transfer} (ht : f.transfer = some t)
    {i : Nat} (hi : t.chunks.status? i = some .received) : i ∈ d.taken.chunks := by
  have hreceived : t.chunks.hasReceived i = true := by simp [ChunkTable.hasReceived, hi]
  exact (((h.of_transfer ht).received i).mp hreceived).2

/-- **A life** keeps the account of its last transfer. -/
theorem follow_accounts {id : Nat} (hnew : ofSettings id settings = .ok f) {calls : List Call}
    (hg : f.follow {} calls = .ok (d, g)) : Accounts d g := by
  have hstart : Accounts {} f := by
    have hnone : f.transfer = none := congrArg Scene.transfer (scene_ofSettings hnew)
    intro b hb
    simp [books?, hnone] at hb
  exact follow_preserves Accounts (fun _ => True)
    (fun _ _ _ _ horder _ _ hcall h => h.perform horder hcall)
    (fun _ _ => trivial) (inOrder_ofSettings hnew) hstart hg

/-! ### The tally -/

/-- The tally counts the data that the diary notes. -/
def Tallied (d : Diary) (s : Scene) : Prop :=
  ∀ t, s.transfer = some t → t.tally.data = d.taken.length

/-- A deed counts the data that it takes. -/
theorem Deed.tally_data {s mid : Scene} {t : Transfer} {gain : Option (Nat × ByteArray)}
    (h : Deed s t gain mid) (ht : s.transfer = some t) :
    ∃ u, mid.transfer = some u ∧ u.tally.data = t.tally.data + gain.toList.length := by
  cases h with
  | nothing => exact ⟨t, ht, rfl⟩
  | setback _ htally =>
      refine ⟨_, rfl, ?_⟩
      rcases htally with rfl | rfl <;> rfl
  | _ => exact ⟨_, rfl, rfl⟩

/-- A wake that takes data counts it, and one that takes none counts none. -/
theorem Tallied.wake {s mid s' : Scene} {t : Transfer} {gain : Option (Nat × ByteArray)}
    (h : Tallied d s) (ht : s.transfer = some t) (hdeed : Deed s t gain mid)
    (hsequel : Sequel mid s') (sent : List Interest) (phase : FetchPhase) :
    Tallied (d.wake gain sent phase) s' := by
  intro v hv
  obtain ⟨u, hu, hdata⟩ := hdeed.tally_data ht
  obtain ⟨drained, hs'⟩ := hsequel.keeps.2.2.2.2 u hu
  obtain rfl : { u with drained } = v := Option.some.inj (hs'.symm.trans hv)
  show u.tally.data = (gain.toList ++ d.taken).length
  rw [hdata, h t ht, List.length_append, Nat.add_comm]

/-- **One turn** counts the data that it takes. -/
theorem Tallied.turn {s' : Scene} {call : Call} (h : Tallied d f.scene)
    (hturn : Turn d f call d' s') : Tallied d' s' := by
  cases hturn with
  | started _ hdeed =>
      have hopened : ∀ now segment, Tallied {} (f.opened now segment).scene := by
        intro now segment t ht
        obtain rfl : f.untouched now segment = t := Option.some.inj ht
        rfl
      exact (hopened _ _).wake rfl hdeed .same _ _
  | woken _ ht hdeed hsequel => exact h.wake ht hdeed hsequel _ _
  | reset => exact fun t ht => nomatch ht
  | aborted =>
      intro u hu
      obtain ⟨t, ht, rfl⟩ := Option.map_eq_some_iff.mp hu
      exact h t ht
  | _ => exact h

/-- So the tally is right at every moment of a life. -/
theorem follow_tallied {id : Nat} (hnew : ofSettings id settings = .ok f) {calls : List Call}
    (hg : f.follow {} calls = .ok (d, g)) : Tallied d g.scene :=
  turns_preserve hnew Tallied (fun _ _ ht => nomatch ht)
    (fun _ _ _ _ _ h hturn => h.turn hturn) hg

/-! ### Every byte -/

/-- **Bytes are accounted for.** Take a new fetcher and any calls on it, which do not fail if they
are `Workable`. Of the transfer that was started last, the diary lists the data that the tally
counts, and each chunk at most once. The bytes still to come are the length that chunk 0 has told,
or -1, less the sizes of the data chunks. A finished transfer has chunk 0, and the delivery has the
length that it has told. -/
theorem bytes_accounted {id : Nat} (hnew : ofSettings id settings = .ok f) (calls : List Call) :
    (Workable settings calls → ∃ d g, f.follow {} calls = .ok (d, g)) ∧
      ∀ d g t, f.follow {} calls = .ok (d, g) → g.transfer = some t →
        t.tally.data = d.taken.length ∧ d.taken.chunks.Nodup ∧
        t.remaining = d.taken.announced - d.taken.payload ∧
        (g.phase = .finished → t.chunks.status? 0 = some .received ∧
          ∃ bytes x, (0, bytes) ∈ d.taken ∧ d.delivered ++ g.completed.toList = [x] ∧
            x.segment = t.segment ∧ x.bytes.size = Books.announced bytes) := by
  refine ⟨fun h => h.follow_ok hnew, fun d g t hg ht => ?_⟩
  have haccounts := follow_accounts hnew hg
  have haccount := haccounts.of_transfer ht
  have hremaining : t.remaining = d.taken.balance := haccount.remaining
  refine ⟨follow_tallied hnew hg t ht, haccount.once, ?_, fun hphase => ?_⟩
  · rw [hremaining, ChunkLog.balance_eq_sub haccount.once]
  have hbalance : d.taken.balance = 0 := (haccounts.finished_iff ht).mp hphase
  have hzero : 0 ∈ d.taken.chunks := ChunkLog.mem_of_balance_eq_zero haccount.once hbalance
  obtain ⟨⟨chunk, bytes⟩, hmem, rfl⟩ := List.mem_map.mp hzero
  refine ⟨?_, bytes, ?_⟩
  · -- Chunk 0 was taken, and the table that it has told has a place for it.
    have hsize : 0 < (g.books t).size := haccount.sized bytes hmem ▸ Nat.succ_pos _
    have hreceived : t.chunks.hasReceived 0 = true := (haccount.received 0).mpr ⟨hsize, hzero⟩
    simpa [ChunkTable.hasReceived] using hreceived
  · cases (follow_tells hnew hg).standing with
    | unsettled _ hnot => exact absurd hphase hnot
    | rejected _ haborted => simp [hphase] at haborted
    | @finished u x _ _ hdeliveries hu hsegment hbytes _ =>
        obtain rfl : t = u := Option.some.inj (ht.symm.trans hu)
        have hparts : t.parts = d.taken.parts := haccount.parts
        refine ⟨x, hmem, hdeliveries, hsegment, ?_⟩
        rw [hbytes, hparts, ChunkLog.size_assemble_parts haccount.once]
        -- What has come is what was told.
        rw [ChunkLog.balance_eq_sub haccount.once,
          ChunkLog.announced_of_mem haccount.once hmem] at hbalance
        omega

/-- Chunk 3 comes twice, chunk 1 with a byte too many, and then chunk 0 tells a length of four
bytes, for which there would be chunks 1 and 2. -/
def oddCalls : List Call :=
  [.start 0 sampleSegment, .wake 1 .tick, .wake 2 .tick, .wake 3 .tick, dataCall 10 3 ⟨#[9]⟩,
    dataCall 11 3 ⟨#[9]⟩, dataCall 20 1 ⟨#[7, 7, 7]⟩, dataCall 30 0 ⟨#[0, 0, 0, 4]⟩]

/-- The transfer takes three chunks and finishes with four bytes, though chunk 2 is missing. -/
theorem bytes_accounted_sample :
    Workable lifeSettings oddCalls ∧ ∃ f d g t, ofSettings 0 lifeSettings = .ok f ∧
      f.follow {} oddCalls = .ok (d, g) ∧ g.transfer = some t ∧ d.taken.chunks = [0, 1, 3] ∧
      t.tally.data = 3 ∧ g.phase = .finished ∧
      ∃ x, d.delivered ++ g.completed.toList = [x] ∧ x.bytes.size = 4 := by
  have hworkable : Workable lifeSettings oddCalls := workable_life (by decide)
  have hvalue : ((ofSettings 0 lifeSettings).toOption.bind fun f =>
      (f.follow {} oddCalls).toOption.bind fun r =>
        r.2.transfer.map fun _ => (r.1.taken, r.2.phase)) =
      some ([(0, ⟨#[0, 0, 0, 4]⟩), (1, ⟨#[7, 7, 7]⟩), (3, ⟨#[9]⟩)], .finished) := by
    decide +kernel
  obtain ⟨f, hnew, hvalue⟩ := Checked.exists_of_bind_toOption hvalue
  obtain ⟨hsucceeds, haccounted⟩ := bytes_accounted hnew oddCalls
  obtain ⟨d, g, hg⟩ := hsucceeds hworkable
  rw [hg] at hvalue
  obtain ⟨t, ht, hpair⟩ := Option.map_eq_some_iff.mp hvalue
  obtain ⟨htaken, hphase⟩ : d.taken = _ ∧ g.phase = .finished := Prod.mk.inj hpair
  obtain ⟨htally, -, -, hfinished⟩ := haccounted d g t hg ht
  obtain ⟨-, bytes, x, hmem, hdelivery, -, hsize⟩ := hfinished hphase
  -- The only chunk 0 is the one that tells four bytes.
  have hbytes : bytes = ⟨#[0, 0, 0, 4]⟩ := by simpa [htaken] using hmem
  refine ⟨hworkable, f, d, g, t, hnew, hg, ht, by simp [htaken, ChunkLog.chunks], ?_, hphase, x,
    hdelivery, ?_⟩
  · rw [htally, htaken]
    rfl
  · rw [hsize, hbytes]
    decide +kernel

end Fetcher

end LayerCast
