import LayerCast.Proofs.Transfer.Shortfall

/-!
# `LayerCast.Proofs.Transfer.Retransmissions`: what counts as sent again

A tally has no column for interests that were sent again. It takes the difference of the interests
and the accepted chunks for them (`Tally.retransmissions`). `retransmissions_counted` says what this
is for a finished transfer: the interests for a chunk that was requested before
(`Diary.repeats`), and one more for each chunk that was requested and never accepted
(`Diary.unanswered`).

The second part is nothing that was sent again. Where the data chunks have the expected length, it
consists of chunks that were requested before chunk 0 has told the length, and lie behind the end.
`guesses_count_as_sent_again` is a transfer without any loss that counts two of them.
-/

set_option autoImplicit false

namespace LayerCast

/-- The entries of a list that are not new when their turn comes, beside those that were seen
before. -/
def again (seen : List Nat) : List Nat → List Nat
  | [] => []
  | i :: rest => if i ∈ seen then i :: again seen rest else again (i :: seen) rest

/-- Every entry is new or comes again. -/
theorem length_again (entries seen : List Nat) :
    (again seen entries).length + (entries.toFinset \ seen.toFinset).card = entries.length := by
  -- Along the entries, with more and more of them seen.
  induction entries generalizing seen with
  | nil => simp [again]
  | cons i rest ih =>
      unfold again
      split
      · rename_i hseen
        have hold : (i :: rest).toFinset \ seen.toFinset = rest.toFinset \ seen.toFinset := by
          rw [List.toFinset_cons, Finset.insert_sdiff_of_mem _ (List.mem_toFinset.mpr hseen)]
        rw [hold, List.length_cons, List.length_cons, ← ih seen]
        omega
      · rename_i hseen
        have hnew : (i :: rest).toFinset \ seen.toFinset =
            insert i (rest.toFinset \ (i :: seen).toFinset) := by
          ext j
          by_cases hj : j = i
          · simp [hj, hseen]
          · simp [hj]
        rw [hnew, Finset.card_insert_of_notMem (by simp), List.length_cons, ← ih (i :: seen)]
        omega

namespace Diary

/-- The chunks that interests were sent for, the oldest interest first. -/
def chunksAsked (d : Diary) : List Nat := d.asked.map (·.name.chunk)

/-- The chunks of those interests that were sent for a chunk which was requested before. -/
def repeats (d : Diary) : List Nat := again [] d.chunksAsked

/-- The chunks that were requested and never accepted. -/
def unanswered (d : Diary) : Finset Nat := d.chunksAsked.toFinset \ d.taken.chunks.toFinset

/-- A wake adds the chunks that it requests. -/
theorem chunksAsked_wake (d : Diary) (gain : Option (Nat × ByteArray)) (sent : List Interest)
    (phase : FetchPhase) :
    (d.wake gain sent phase).chunksAsked = d.chunksAsked ++ sent.map (·.name.chunk) :=
  List.map_append

/-- Each interest is for a chunk that was requested before, or the first one for a chunk that was
accepted, or for one that was not. -/
theorem length_chunksAsked {d : Diary} (honce : d.taken.chunks.Nodup)
    (hasked : ∀ i ∈ d.taken.chunks, i ∈ d.chunksAsked) :
    d.chunksAsked.length = d.repeats.length + d.unanswered.card + d.taken.length := by
  have hsubset : d.taken.chunks.toFinset ⊆ d.chunksAsked.toFinset := by
    intro i hi
    exact List.mem_toFinset.mpr (hasked i (List.mem_toFinset.mp hi))
  have hfirst := length_again d.chunksAsked []
  have hanswered := Finset.card_sdiff_add_card_eq_card hsubset
  rw [List.toFinset_card_of_nodup honce, ChunkLog.chunks, List.length_map] at hanswered
  rw [List.toFinset_nil, Finset.sdiff_empty, ← hanswered] at hfirst
  rw [← hfirst, Nat.add_assoc]
  rfl

end Diary

namespace ChunkTable

variable {t u : ChunkTable} {chunk i : Nat}

/-- A chunk was requested and is still to come. -/
def Awaits (t : ChunkTable) (i : Nat) : Prop :=
  t.status? i = some .requested ∨ t.status? i = some .timedOut

/-- A fresh table waits for nothing. -/
theorem not_awaits_ofSize (n : Nat) : ¬ (ofSize n).Awaits i := by
  rintro (h | h) <;> cases status?_ofSize h

/-- Nothing is waited for once the transfer is given up. -/
theorem not_awaits_abort : ¬ t.abort.Awaits i := by
  unfold Awaits
  rw [status?_abort]
  cases t.status? i with
  | none => simp
  | some s => cases s <;> simp

/-- A request waits for its chunk and for what was awaited before. -/
theorem Awaits.of_request? (h : u.Awaits i) (hu : t.request? chunk = some u) :
    i = chunk ∨ t.Awaits i := by
  by_cases hi : i = chunk
  · exact .inl hi
  · right
    rwa [Awaits, status?_request? hu, if_neg hi] at h

/-- After a timeout the chunk is still awaited, and no other one is new. -/
theorem Awaits.of_timeOut? (h : u.Awaits i) (hu : t.timeOut? chunk = some u) : t.Awaits i := by
  by_cases hi : i = chunk
  · exact .inl (hi ▸ requested_of_timeOut? hu)
  · rwa [Awaits, status?_timeOut? hu, if_neg hi] at h

/-- What arrives was to come, and what is still to come then was so before. -/
theorem Awaits.of_receive {new : Bool} (h : (t.receive chunk).2.Awaits i)
    (hnew : (t.receive chunk).1 = .new new) : t.Awaits i := by
  by_cases hi : i = chunk
  · exact hi ▸ new_iff.mp ⟨new, hnew⟩
  · rwa [Awaits, status?_receive hnew, if_neg hi] at h

/-- A new size awaits no new chunk. -/
theorem Awaits.of_resize {n : Nat} (h : (t.resize n).2.Awaits i) : t.Awaits i := by
  unfold Awaits at h ⊢
  rw [status?_resize] at h
  split at h
  · cases hs : t.status? i with
    | none => simp [hs] at h
    | some s => simpa [hs] using h
  · simp at h

end ChunkTable

namespace Chunking

/-- No data chunk up to the last one is expected to be empty. -/
theorem share_pos {payload length c : Nat} (hpayload : 0 < payload) (hfirst : 1 ≤ c)
    (hlast : c ≤ count payload length) : 0 < share payload length c := by
  have hleft : (c - 1) * payload < length := (succ_le_count hpayload).mp (by omega)
  unfold share
  omega

end Chunking

namespace ChunkLog

variable {log : ChunkLog} {payload length : Nat}

/-- If data chunks of the expected length add up to the whole, no one is missing. -/
theorem mem_of_payload_eq (honce : log.chunks.Nodup) (hpayload : 0 < payload)
    (hsizes : ∀ part ∈ log, part.1 ≠ 0 → part.2.size = Chunking.share payload length part.1)
    (hwhole : log.payload = length) {c : Nat} (hfirst : 1 ≤ c)
    (hlast : c ≤ Chunking.count payload length) : c ∈ log.chunks := by
  by_contra hmissing
  have hfresh : c ∉ log.dataChunks := fun hc => hmissing (mem_dataChunks.mp hc).1
  have hc : c ∈ Finset.Icc 1 (Chunking.count payload length) := Finset.mem_Icc.mpr ⟨hfirst, hlast⟩
  have hdata : ∀ i ∈ log.dataChunks ∪ Finset.Icc 1 (Chunking.count payload length), i ≠ 0 := by
    intro i hi
    rcases Finset.mem_union.mp hi with hi | hi
    · exact (mem_dataChunks.mp hi).2
    · exact Nat.ne_of_gt (Finset.mem_Icc.mp hi).1
  -- The missing chunk would come on top of what is the whole already.
  have hmore : ∑ i ∈ insert c log.dataChunks, Chunking.share payload length i ≤ length :=
    calc ∑ i ∈ insert c log.dataChunks, Chunking.share payload length i
        ≤ ∑ i ∈ log.dataChunks ∪ Finset.Icc 1 (Chunking.count payload length),
            Chunking.share payload length i :=
          Finset.sum_le_sum_of_subset (Finset.insert_subset (Finset.mem_union_right _ hc)
            Finset.subset_union_left)
      _ = length := Chunking.sum_share_of_subset hpayload hdata Finset.subset_union_right
  rw [Finset.sum_insert hfresh, ← payload_eq_sum honce hsizes, hwhole] at hmore
  have := Chunking.share_pos hpayload hfirst hlast
  omega

end ChunkLog

namespace Fetcher

variable {d d' : Diary} {f g : Fetcher} {s s' mid : Scene} {t u : Transfer} {call : Call}
  {gain : Option (Nat × ByteArray)} {settings : FetchSettings}

/-! ### Interests -/

/-- The tally counts the interests that the diary lists, and they were sent for everything that has
arrived or is still to come. -/
structure Spends (d : Diary) (s : Scene) : Prop where
  interests : ∀ t, s.transfer = some t → t.tally.interests = d.chunksAsked.length
  taken : ∀ i ∈ d.taken.chunks, i ∈ d.chunksAsked
  awaited : ∀ t, s.transfer = some t → ∀ i, t.chunks.Awaits i → i ∈ d.chunksAsked

/-- Where nothing is sent, only what was to come can arrive. -/
theorem Spends.silent (h : Spends d s) (ht : s.transfer = some t)
    (hasked : d'.chunksAsked = d.chunksAsked)
    (htaken : ∀ i ∈ d'.taken.chunks, i ∈ d.taken.chunks ∨ t.chunks.Awaits i)
    (hu : s'.transfer = some u) (htally : u.tally.interests = t.tally.interests)
    (hawaits : ∀ i, u.chunks.Awaits i → t.chunks.Awaits i) : Spends d' s' where
  interests v hv := by
    obtain rfl := Option.some.inj (hu.symm.trans hv)
    rw [htally, h.interests t ht, hasked]
  taken i hi := by
    rw [hasked]
    exact (htaken i hi).elim (h.taken i) (h.awaited t ht i)
  awaited v hv i hi := by
    obtain rfl := Option.some.inj (hu.symm.trans hv)
    rw [hasked]
    exact h.awaited t ht i (hawaits i hi)

/-- A deed counts the interest that it sends, and takes what was asked for. -/
theorem Spends.deed (h : Spends d s) (ht : s.transfer = some t) (hdeed : Deed s t gain mid)
    (phase : FetchPhase) :
    Spends (d.wake gain (mid.outbox.drop s.outbox.length) phase) mid := by
  -- Only a request sends something.
  have hsilent : ∀ gain, (d.wake gain (s.outbox.drop s.outbox.length) phase).chunksAsked =
      d.chunksAsked := by
    intro gain
    rw [Diary.chunksAsked_wake, List.drop_length, List.map_nil, List.append_nil]
  cases hdeed with
  | nothing => exact h.silent ht (hsilent _) (fun _ => .inl) ht rfl fun _ hi => hi
  | duplicate => exact h.silent ht (hsilent _) (fun _ => .inl) rfl rfl fun _ hi => hi
  | setback hchunks htally =>
      refine h.silent ht (hsilent _) (fun _ => .inl) rfl ?_ fun _ hi => hi.of_timeOut? hchunks
      rcases htally with rfl | rfl <;> rfl
  | part _ hnew =>
      refine h.silent ht (hsilent _) (fun i hi => ?_) rfl rfl fun _ hi => hi.of_receive hnew
      rcases ChunkLog.mem_chunks_cons.mp hi with rfl | hi
      · exact .inr (ChunkTable.new_iff.mp ⟨_, hnew⟩)
      · exact .inl hi
  | length _ hnew =>
      refine h.silent ht (hsilent _) (fun i hi => ?_) rfl rfl
        fun _ hi => hi.of_resize.of_receive hnew
      rcases ChunkLog.mem_chunks_cons.mp hi with rfl | hi
      · exact .inr (ChunkTable.new_iff.mp ⟨_, hnew⟩)
      · exact .inl hi
  | reject =>
      exact h.silent ht (hsilent _) (fun _ => .inl) rfl rfl
        fun _ hi => absurd hi ChunkTable.not_awaits_abort
  | @request chunk lifetime chunks _ _ _ hchunks =>
      have hsent : (d.wake none ((s.outbox ++ [Interest.mk ⟨t.name, chunk⟩ lifetime]).drop
          s.outbox.length) phase).chunksAsked = d.chunksAsked ++ [chunk] := by
        rw [Diary.chunksAsked_wake, List.drop_left]
        rfl
      refine ⟨fun v hv => ?_, fun i hi => ?_, fun v hv i hi => ?_⟩
      · obtain rfl := Option.some.inj hv
        rw [hsent, List.length_append, ← h.interests t ht]
        rfl
      · rw [hsent]
        exact List.mem_append_left _ (h.taken i hi)
      · obtain rfl := Option.some.inj hv
        rw [hsent]
        rcases ChunkTable.Awaits.of_request? hi hchunks with rfl | hi
        · exact List.mem_append_right _ List.mem_cons_self
        · exact List.mem_append_left _ (h.awaited t ht i hi)

/-- A sequel sends and takes nothing. -/
theorem Spends.sequel (h : Spends d mid) (hu : mid.transfer = some u) (hsequel : Sequel mid s') :
    Spends d s' := by
  obtain ⟨drained, hs'⟩ := hsequel.keeps.2.2.2.2 u hu
  exact h.silent hu rfl (fun _ => .inl) hs' rfl fun _ hi => hi

/-- **One turn** counts the interests that it sends. -/
theorem Spends.turn (h : Spends d f.scene) (hturn : Turn d f call d' s') : Spends d' s' := by
  have hnothing : ∀ i ∈ ({} : Diary).taken.chunks, i ∈ ({} : Diary).chunksAsked :=
    fun i hi => nomatch hi
  cases hturn with
  | @started now segment _ _ hdeed =>
      -- A transfer starts with nothing sent and nothing awaited.
      have hopened : Spends {} (f.opened now segment).scene := by
        refine ⟨fun t ht => ?_, hnothing, fun t ht i hi => ?_⟩
        · obtain rfl : f.untouched now segment = t := Option.some.inj ht
          rfl
        · obtain rfl : f.untouched now segment = t := Option.some.inj ht
          exact absurd hi (ChunkTable.not_awaits_ofSize _)
      exact hopened.deed rfl hdeed _
  | @woken t _ _ _ s' _ ht hdeed hsequel =>
      obtain ⟨u, hu, -⟩ := hdeed.open_or_rejected ht
      have hmid := h.deed ht hdeed s'.phase
      rw [← hsequel.keeps.2.2.2.1] at hmid
      exact hmid.sequel hu hsequel
  | reset => exact ⟨fun _ ht => (nomatch ht), hnothing, fun _ ht => (nomatch ht)⟩
  | aborted =>
      refine ⟨fun u hu => ?_, h.taken, fun u hu i hi => ?_⟩
      · obtain ⟨t, ht, rfl⟩ := Option.map_eq_some_iff.mp hu
        exact h.interests t ht
      · obtain ⟨t, ht, rfl⟩ := Option.map_eq_some_iff.mp hu
        exact absurd hi ChunkTable.not_awaits_abort
  | _ => exact ⟨h.interests, h.taken, h.awaited⟩

/-- So the interests are accounted for at every moment of a life. -/
theorem follow_spends {id : Nat} (hnew : ofSettings id settings = .ok f) {calls : List Call}
    (hg : f.follow {} calls = .ok (d, g)) : Spends d g.scene :=
  turns_preserve hnew Spends
    (fun _ => ⟨fun _ ht => (nomatch ht), fun _ hi => (nomatch hi), fun _ ht => nomatch ht⟩)
    (fun _ _ _ _ _ h hturn => h.turn hturn) hg

/-! ### Retransmissions -/

/-- A finished transfer has taken chunk 0, and what it delivers has its tally. -/
theorem of_finished (haccounts : Accounts d g) (htells : Tells d g.scene)
    (hphase : g.phase = .finished) :
    ∃ t bytes x, g.transfer = some t ∧ (0, bytes) ∈ d.taken ∧
      d.delivered ++ g.completed.toList = [x] ∧ x.tally = t.tally := by
  cases htells.standing with
  | unsettled _ hnot => exact absurd hphase hnot
  | rejected _ haborted => simp [hphase] at haborted
  | @finished t x _ _ hdeliveries ht _ _ htally =>
      have hzero := ChunkLog.mem_of_balance_eq_zero (haccounts.of_transfer ht).once
        ((haccounts.finished_iff ht).mp hphase)
      obtain ⟨⟨chunk, bytes⟩, hmem, rfl⟩ := List.mem_map.mp hzero
      exact ⟨t, bytes, x, ht, hmem, hdeliveries, htally⟩

/-- Where the data chunks have the expected length, everything up to the end has arrived when the
transfer is finished. -/
theorem Accounts.behind_of_unanswered (h : Accounts d g) (ht : g.transfer = some t)
    (hphase : g.phase = .finished) (hpayload : 0 < g.settings.chunkPayload) {bytes : ByteArray}
    (hmem : (0, bytes) ∈ d.taken)
    (hsizes : ∀ part ∈ d.taken, part.1 ≠ 0 → part.2.size =
      Chunking.share g.settings.chunkPayload (Books.announced bytes) part.1) {i : Nat}
    (hi : i ∈ d.unanswered) :
    Chunking.count g.settings.chunkPayload (Books.announced bytes) < i := by
  have honce := (h.of_transfer ht).once
  have hwhole := (h.finished_iff_payload ht hmem).mp hphase
  have hmissing : i ∉ d.taken.chunks := fun htaken =>
    (Finset.mem_sdiff.mp hi).2 (List.mem_toFinset.mpr htaken)
  have hne : i ≠ 0 := by
    rintro rfl
    exact hmissing (ChunkLog.mem_chunks_of_mem hmem)
  by_contra hlast
  exact hmissing (ChunkLog.mem_of_payload_eq honce hpayload hsizes hwhole (by omega) (by omega))

/-- **What counts as retransmitted.** Take a new fetcher and any calls on it, which do not fail if
they are `Workable`. What the tally of a finished transfer gives as retransmissions are the
interests for chunks that were requested before, and one more for each chunk that was requested and
never accepted. So it is the number of interests that were sent again exactly if everything that was
requested was accepted. What was not accepted lies behind the end that chunk 0 has told, if each
data chunk has the expected length. -/
theorem retransmissions_counted {id : Nat} (hnew : ofSettings id settings = .ok f)
    (calls : List Call) :
    (Workable settings calls → ∃ d g, f.follow {} calls = .ok (d, g)) ∧
      ∀ d g, f.follow {} calls = .ok (d, g) → g.phase = .finished →
        ∃ bytes x, (0, bytes) ∈ d.taken ∧ d.delivered ++ g.completed.toList = [x] ∧
          x.tally.retransmissions = d.repeats.length + d.unanswered.card ∧
          (x.tally.retransmissions = d.repeats.length ↔ d.unanswered = ∅) ∧
          (0 < settings.chunkPayload → (∀ part ∈ d.taken, part.1 ≠ 0 → part.2.size =
            Chunking.share settings.chunkPayload (Books.announced bytes) part.1) →
            ∀ i ∈ d.unanswered,
              Chunking.count settings.chunkPayload (Books.announced bytes) < i) := by
  have horder := inOrder_ofSettings hnew
  refine ⟨fun h => h.follow_ok hnew, fun d g hg hphase => ?_⟩
  have haccounts := follow_accounts hnew hg
  have hspends := follow_spends hnew hg
  obtain ⟨t, bytes, x, ht, hmem, hx, htally⟩ :=
    of_finished haccounts (follow_tells hnew hg) hphase
  have hcounted : x.tally.retransmissions = d.repeats.length + d.unanswered.card := by
    rw [htally, Tally.retransmissions, hspends.interests t ht, follow_tallied hnew hg t ht,
      Diary.length_chunksAsked (haccounts.of_transfer ht).once hspends.taken, Nat.add_sub_cancel]
  refine ⟨bytes, x, hmem, hx, hcounted, ?_, fun hpayload hsizes i hi => ?_⟩
  · rw [hcounted, Nat.add_eq_left, Finset.card_eq_zero]
  · have hsettings : g.settings = settings := (follow_inOrder horder hg).equipped.settings
    rw [← hsettings] at hpayload hsizes ⊢
    exact haccounts.behind_of_unanswered ht hphase hpayload hmem hsizes hi

/-- Four chunks are requested, and chunk 1 a second time after its timer has expired. Chunk 0 tells
a length of two bytes, for which there is one data chunk. -/
def repeatedCalls : List Call :=
  [.start 0 sampleSegment, .wake 1 .tick, .wake 2 .tick, .wake 3 .tick, .wake 600 (.timer 1),
    .wake 700 .tick, dataCall 800 0 ⟨#[0, 0, 0, 2]⟩, dataCall 810 1 ⟨#[7, 7]⟩]

/-- One interest was sent again, and chunks 2 and 3 lie behind the end. -/
theorem retransmissions_counted_sample :
    Workable lifeSettings repeatedCalls ∧ ∃ f d g x, ofSettings 0 lifeSettings = .ok f ∧
      f.follow {} repeatedCalls = .ok (d, g) ∧ g.phase = .finished ∧
      d.delivered ++ g.completed.toList = [x] ∧ d.repeats = [1] ∧ d.unanswered = {2, 3} ∧
      x.tally.retransmissions = 3 ∧ ∀ i ∈ d.unanswered, 1 < i := by
  have hworkable : Workable lifeSettings repeatedCalls := workable_life (by decide)
  have hvalue : ((ofSettings 0 lifeSettings).toOption.bind fun f =>
      (f.follow {} repeatedCalls).toOption.map fun r =>
        (r.2.phase, r.1.taken, r.1.chunksAsked)) =
      some (.finished, [(1, ⟨#[7, 7]⟩), (0, ⟨#[0, 0, 0, 2]⟩)], [0, 1, 2, 3, 1]) := by
    decide +kernel
  obtain ⟨f, hnew, hvalue⟩ := Checked.exists_of_bind_toOption hvalue
  obtain ⟨hsucceeds, hcounted⟩ := retransmissions_counted hnew repeatedCalls
  obtain ⟨d, g, hg⟩ := hsucceeds hworkable
  rw [hg] at hvalue
  obtain ⟨hphase, hrest⟩ := Prod.mk.inj (Option.some.inj hvalue)
  obtain ⟨htaken, hasked⟩ : d.taken = _ ∧ d.chunksAsked = _ := Prod.mk.inj hrest
  have hrepeats : d.repeats = [1] := by
    rw [Diary.repeats, hasked]
    decide
  have hunanswered : d.unanswered = {2, 3} := by
    rw [Diary.unanswered, hasked, htaken]
    decide
  obtain ⟨bytes, x, hmem, hx, hcount, -, hbehind⟩ := hcounted d g hg hphase
  obtain rfl : bytes = ⟨#[0, 0, 0, 2]⟩ := by simpa [htaken] using hmem
  refine ⟨hworkable, f, d, g, x, hnew, hg, hphase, hx, hrepeats, hunanswered, ?_, ?_⟩
  · rw [hcount, hrepeats, hunanswered]
    decide
  · refine hbehind hworkable.payload ?_
    rw [htaken]
    decide +kernel

/-- Four chunks are requested, each of them once. Chunk 0 tells a length of two bytes, and
everything arrives. -/
def guessedCalls : List Call :=
  [.start 0 sampleSegment, .wake 1 .tick, .wake 2 .tick, .wake 3 .tick,
    dataCall 20 0 ⟨#[0, 0, 0, 2]⟩, dataCall 21 1 ⟨#[7, 7]⟩]

/-- No interest was sent again, and still two retransmissions are counted. -/
theorem guesses_count_as_sent_again :
    ∃ f d g x, ofSettings 0 lifeSettings = .ok f ∧ f.follow {} guessedCalls = .ok (d, g) ∧
      g.phase = .finished ∧ g.completed = some x ∧ x.tally.timeouts = 0 ∧ x.tally.nacks = 0 ∧
      d.repeats = [] ∧ x.tally.retransmissions = 2 ∧
      x.tally.retransmissions ≠ d.repeats.length := by
  have hvalue : ((ofSettings 0 lifeSettings).toOption.bind fun f =>
      (f.follow {} guessedCalls).toOption.bind fun r => r.2.completed.map fun x =>
        (r.2.phase, x.tally.timeouts, x.tally.nacks, r.1.repeats, x.tally.retransmissions)) =
      some (.finished, 0, 0, [], 2) := by decide +kernel
  obtain ⟨f, hnew, hvalue⟩ := Checked.exists_of_bind_toOption hvalue
  obtain ⟨⟨d, g⟩, hg, hvalue⟩ := Checked.exists_of_bind_toOption hvalue
  obtain ⟨x, hx, hvalues⟩ := Option.map_eq_some_iff.mp hvalue
  simp only [Prod.mk.injEq] at hvalues
  obtain ⟨hphase, htimeouts, hnacks, hrepeats, hcount⟩ := hvalues
  refine ⟨f, d, g, x, hnew, hg, hphase, hx, htimeouts, hnacks, hrepeats, hcount, ?_⟩
  rw [hcount, hrepeats]
  decide

end Fetcher

end LayerCast
