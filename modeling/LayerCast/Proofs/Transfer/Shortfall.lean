import LayerCast.Proofs.Transfer.Bytes
import LayerCast.Proofs.Transfer.Requests

/-!
# `LayerCast.Proofs.Transfer.Shortfall`: transfers that have every chunk

What is requested depends on the number of chunks, and when a transfer ends depends on the number of
bytes. The two agree if all data chunks have the length that the fetcher expects. On other networks
they need not, and `fully_received` says what happens then. A transfer that has every chunk is
finished if the bytes add up to the length that chunk 0 has told. Otherwise it stands still: nothing
is out, nothing is left to be requested, and only its owner can end it.
-/

set_option autoImplicit false

namespace LayerCast

namespace ChunkTable

/-- Every chunk has arrived. -/
def Complete (t : ChunkTable) : Prop := ∀ i < t.size, t.status? i = some .received

variable {t : ChunkTable}

/-- In a complete table every chunk has arrived. -/
theorem Complete.eq_received (h : t.Complete) {i : Nat} {s : ChunkStatus}
    (hs : t.status? i = some s) : s = .received :=
  Option.some.inj (hs.symm.trans (h i (lt_size_of_status? hs)))

/-- A complete table has nothing to request. -/
theorem Complete.nextNeeded (h : t.Complete) : t.nextNeeded = none := by
  cases hneeded : t.nextNeeded with
  | none => rfl
  | some chunk =>
      rcases of_nextNeeded hneeded with hs | hs
      · cases h.eq_received hs
      · cases h.eq_received hs

/-- In a complete table no request is out. -/
theorem Complete.inFlight (h : t.Complete) (hcounted : t.Counted) : t.inFlight = 0 := by
  refine Nat.eq_zero_of_not_pos fun hout => ?_
  obtain ⟨chunk, hs⟩ := hcounted.exists_requested hout
  cases h.eq_received hs

/-- Giving up completes no table. -/
theorem Complete.of_abort (h : t.abort.Complete) : t.Complete := by
  intro i hi
  have hreceived := h i (t.size_abort.symm ▸ hi)
  rw [status?_abort] at hreceived
  obtain ⟨s, hs, hsame⟩ := Option.map_eq_some_iff.mp hreceived
  by_cases hs' : s = .received
  · rw [hs, hs']
  · rw [if_neg hs'] at hsame
    cases hsame

end ChunkTable

/-! ### Data chunks of the expected length -/

namespace Chunking

/-- The length that a data chunk of a content should have. -/
def share (payload length c : Nat) : Nat := min payload (length - (c - 1) * payload)

variable {payload length : Nat}

/-- Behind the last data chunk nothing is left. -/
theorem share_eq_zero (hpayload : 0 < payload) {c : Nat} (hc : count payload length < c) :
    share payload length c = 0 := by
  have hleft : ¬(c - 1) * payload < length := fun hlt => by
    have hlast := (succ_le_count hpayload).mpr hlt
    omega
  unfold share
  omega

/-- The data chunks should hold the content. -/
theorem sum_share (hpayload : 0 < payload) (length : Nat) :
    ∑ c ∈ Finset.Icc 1 (count payload length), share payload length c = length := by
  -- They are the lengths of the slices of any content of that length.
  have hsize : (ByteArray.mk (Array.replicate length 0)).size = length := Array.size_replicate
  have hsum := sum_size (ByteArray.mk (Array.replicate length 0)) hpayload
  rw [hsize] at hsum
  refine (Finset.sum_congr rfl fun c hc => ?_).trans hsum
  obtain ⟨c, rfl⟩ : ∃ k, c = k + 1 := ⟨c - 1, by have := (Finset.mem_Icc.mp hc).1; omega⟩
  rw [size_slice, hsize]
  rfl

/-- Empty data chunks behind the end add nothing. -/
theorem sum_share_of_subset (hpayload : 0 < payload) {present : Finset Nat}
    (hdata : ∀ c ∈ present, c ≠ 0) (hall : Finset.Icc 1 (count payload length) ⊆ present) :
    ∑ c ∈ present, share payload length c = length := by
  refine (Finset.sum_subset hall fun c hc hout => ?_).symm.trans (sum_share hpayload length)
  have hne := hdata c hc
  refine share_eq_zero hpayload (Nat.lt_of_not_le fun hlast => hout ?_)
  exact Finset.mem_Icc.mpr ⟨by omega, hlast⟩

end Chunking

namespace ChunkLog

variable {log : ChunkLog} {payload length : Nat}

/-- The bytes of a log in which each data chunk has the expected length. -/
theorem payload_eq_sum (honce : log.chunks.Nodup)
    (hsizes : ∀ part ∈ log, part.1 ≠ 0 → part.2.size = Chunking.share payload length part.1) :
    log.payload = ∑ c ∈ log.dataChunks, Chunking.share payload length c := by
  induction log with
  | nil => rfl
  | cons first rest ih =>
      obtain ⟨chunk, bytes⟩ := first
      obtain ⟨hnew, hrest⟩ := nodup_chunks_cons.mp honce
      have ih := ih hrest fun part hpart => hsizes part (List.mem_cons_of_mem _ hpart)
      by_cases hchunk : chunk = 0
      · subst hchunk
        rw [payload_cons_zero, dataChunks_cons_zero, ih]
      · have hfresh : chunk ∉ dataChunks rest := fun hmem => hnew (mem_dataChunks.mp hmem).1
        rw [payload_cons hchunk, dataChunks_cons hchunk, Finset.sum_insert hfresh, ih,
          hsizes _ List.mem_cons_self hchunk]

/-- If every data chunk was taken, those of the expected length add up to the whole. -/
theorem payload_eq_length (honce : log.chunks.Nodup) (hpayload : 0 < payload)
    (hall : ∀ c ≤ Chunking.count payload length, c ∈ log.chunks)
    (hsizes : ∀ part ∈ log, part.1 ≠ 0 → part.2.size = Chunking.share payload length part.1) :
    log.payload = length := by
  rw [payload_eq_sum honce hsizes]
  refine Chunking.sum_share_of_subset hpayload (fun c hc => (mem_dataChunks.mp hc).2) ?_
  intro c hc
  obtain ⟨hfirst, hlast⟩ := Finset.mem_Icc.mp hc
  exact mem_dataChunks.mpr ⟨hall c hlast, by omega⟩

end ChunkLog

namespace Fetcher

variable {d d' : Diary} {f g : Fetcher} {s s' mid : Scene} {t u : Transfer} {call : Call}
  {gain : Option (Nat × ByteArray)} {settings : FetchSettings}

/-! ### Giving up -/

/-- A transfer that has given itself up lacks a chunk. -/
def Gap (d : Diary) (s : Scene) : Prop :=
  d.ends = [.aborted] → ∀ t, s.transfer = some t → ¬ t.chunks.Complete

/-- A wake gives up a transfer only if it lacks a chunk. -/
theorem gap_wake (h : Tells d s) (hphase : s.phase = .downloading)
    (hdeed : Deed s t gain mid) (hsequel : Sequel mid s') (sent : List Interest) :
    Gap (d.wake gain sent s'.phase) s' := by
  intro hends v hv hcomplete
  have hbefore : d.ends = [] := (h.standing.of_running hphase).1
  have haborted : s'.phase = .aborted := by
    by_cases hrunning : s'.phase = .downloading
    · simp [Diary.wake, hrunning, hbefore] at hends
    · simpa [Diary.wake, hrunning, hbefore] using hends
  -- Of what can follow a deed, nothing gives a transfer up. So the deed did.
  cases hsequel with
  | drained hrunning => simp [hrunning] at haborted
  | finished => cases haborted
  | same =>
      cases hdeed with
      | reject hstatus hmissing =>
          obtain rfl := Option.some.inj hv
          exact hmissing (hcomplete.of_abort.eq_received hstatus)
      | _ => simp [hphase] at haborted

/-- **One turn** gives up a transfer only if it lacks a chunk. -/
theorem Gap.turn (h : Gap d f.scene) (htells : Tells d f.scene) (hturn : Turn d f call d' s') :
    Gap d' s' := by
  cases hturn with
  | started _ hdeed => exact gap_wake (tells_opened f _ _) rfl hdeed .same _
  | woken hphase _ hdeed hsequel => exact gap_wake htells hphase hdeed hsequel _
  | reset => exact fun hends => nomatch hends
  | aborted =>
      intro hends u hu hcomplete
      obtain ⟨t, ht, rfl⟩ := Option.map_eq_some_iff.mp hu
      exact h hends t ht hcomplete.of_abort
  | _ => exact h

/-- In no life does a transfer give itself up once every chunk has arrived. -/
theorem follow_gap {id : Nat} (hnew : ofSettings id settings = .ok f) {calls : List Call}
    (hg : f.follow {} calls = .ok (d, g)) : Gap d g.scene := by
  have hboth : Tells d g.scene ∧ Gap d g.scene := by
    refine turns_preserve hnew (fun d s => Tells d s ∧ Gap d s) ?_ ?_ hg
    · intro window
      exact ⟨tells_blank settings window, fun hends => nomatch hends⟩
    · rintro d f call d' s' ⟨htells, hgap⟩ hturn
      exact ⟨htells.turn hturn, hgap.turn htells hturn⟩
  exact hboth.2

/-! ### Standing still -/

/-- A transfer runs with a table, while bytes are to come, and these interests were sent for it. -/
structure Standstill (chunks : ChunkTable) (asked : List Interest) (d : Diary) (s : Scene) :
    Prop where
  phase : s.phase = .downloading
  transfer : ∃ t, s.transfer = some t ∧ t.chunks = chunks ∧ t.remaining ≠ 0
  asked : d.asked = asked

/-- Where every chunk is there, a wake changes at most the tally. -/
theorem Deed.of_complete (h : Deed s t gain mid) (ht : s.transfer = some t)
    (hcomplete : t.chunks.Complete) :
    mid.phase = s.phase ∧ mid.outbox = s.outbox ∧
      ∃ u, mid.transfer = some u ∧ u.chunks = t.chunks ∧ u.remaining = t.remaining := by
  cases h with
  | nothing => exact ⟨rfl, rfl, t, ht, rfl, rfl⟩
  | duplicate => exact ⟨rfl, rfl, _, rfl, rfl, rfl⟩
  | setback hchunks => cases hcomplete.eq_received (ChunkTable.requested_of_timeOut? hchunks)
  | part _ hnew =>
      rcases ChunkTable.new_iff.mp ⟨_, hnew⟩ with hs | hs <;> cases hcomplete.eq_received hs
  | length _ hnew =>
      rcases ChunkTable.new_iff.mp ⟨_, hnew⟩ with hs | hs <;> cases hcomplete.eq_received hs
  | request _ _ _ hchunks =>
      rcases ChunkTable.needed_of_request? hchunks with hs | hs <;>
        cases hcomplete.eq_received hs
  | reject hstatus hmissing => exact absurd (hcomplete.eq_received hstatus) hmissing

/-- **One turn** does not move a transfer that stands still, unless its owner ends it. -/
theorem Standstill.turn {chunks : ChunkTable} {asked : List Interest}
    (h : Standstill chunks asked d f.scene) (hcomplete : chunks.Complete)
    (hcall : call ≠ .abort ∧ call ≠ .reset) (hturn : Turn d f call d' s') :
    Standstill chunks asked d' s' := by
  obtain ⟨hphase, ⟨t, ht, hchunks, hremaining⟩, hasked⟩ := h
  cases hturn with
  | started hidle => exact absurd hphase hidle
  | aborted => exact absurd rfl hcall.1
  | reset => exact absurd rfl hcall.2
  | @woken t' _ _ mid _ _ ht' hdeed hsequel =>
      obtain rfl : t = t' := Option.some.inj (ht.symm.trans ht')
      obtain ⟨hmid, hquiet, u, hu, husame, hubytes⟩ :=
        hdeed.of_complete ht (hchunks.symm ▸ hcomplete)
      have hmidPhase : mid.phase = .downloading := hmid.trans hphase
      have hkeeps := hsequel.keeps
      obtain ⟨drained, hs'⟩ := hkeeps.2.2.2.2 u hu
      refine ⟨?_, ⟨_, hs', husame.trans hchunks, hubytes.symm ▸ hremaining⟩, ?_⟩
      · cases hsequel with
        | same => exact hmidPhase
        | drained => exact hmidPhase
        | finished _ hv hzero =>
            -- A transfer only finishes when no byte is to come.
            obtain rfl := Option.some.inj (hu.symm.trans hv)
            exact absurd (hubytes.symm.trans hzero) hremaining
      · show d.asked ++ s'.outbox.drop f.outbox.length = asked
        rw [hkeeps.2.2.2.1, hquiet, scene_outbox, List.drop_length, List.append_nil, hasked]
  | _ => exact ⟨hphase, ⟨t, ht, hchunks, hremaining⟩, hasked⟩

/-- A transfer that has every chunk while bytes are to come stands still. -/
theorem follow_standstill (horder : f.InOrder settings) (hphase : f.phase = .downloading)
    (ht : f.transfer = some t) (hcomplete : t.chunks.Complete) (hremaining : t.remaining ≠ 0)
    {later : List Call} (hlater : ∀ call ∈ later, call ≠ .abort ∧ call ≠ .reset)
    (hg : f.follow d later = .ok (d', g)) : Standstill t.chunks d.asked d' g.scene :=
  follow_preserves (fun d f => Standstill t.chunks _ d f.scene)
    (fun call => call ≠ .abort ∧ call ≠ .reset)
    (fun _ _ _ _ horder _ hkind hcall h => h.turn hcomplete hkind (perform_turn horder hcall))
    hlater horder ⟨hphase, ⟨t, ht, rfl, hremaining⟩, rfl⟩ hg

/-- A complete transfer has no timer armed. -/
theorem Clocked.unarmed_of_complete (h : f.Clocked settings t) (hcomplete : t.chunks.Complete) :
    f.timers.queue = [] := by
  have hchunks : f.timers.chunks = [] := by
    refine List.eq_nil_iff_forall_not_mem.mpr fun i hi => ?_
    cases hcomplete.eq_received ((h.armed i).mp hi)
  exact List.map_eq_nil_iff.mp hchunks

/-! ### What is missing -/

/-- With chunk 0 there, a transfer is finished when its bytes add up. -/
theorem Accounts.finished_iff_payload (h : Accounts d f) (ht : f.transfer = some t)
    {bytes : ByteArray} (hmem : (0, bytes) ∈ d.taken) :
    f.phase = .finished ↔ d.taken.payload = Books.announced bytes := by
  have honce := (h.of_transfer ht).once
  rw [h.finished_iff ht, ChunkLog.balance_eq_sub honce, ChunkLog.announced_of_mem honce hmem]
  omega

/-- The bytes of a complete transfer add up if each data chunk has the expected length. -/
theorem Accounts.payload_of_complete (h : Accounts d f) (ht : f.transfer = some t)
    {bytes : ByteArray} (hmem : (0, bytes) ∈ d.taken) (hcomplete : t.chunks.Complete)
    (hpayload : 0 < f.settings.chunkPayload)
    (hsizes : ∀ part ∈ d.taken, part.1 ≠ 0 → part.2.size =
      Chunking.share f.settings.chunkPayload (Books.announced bytes) part.1) :
    d.taken.payload = Books.announced bytes := by
  have haccount := h.of_transfer ht
  refine ChunkLog.payload_eq_length haccount.once hpayload (fun c hc => ?_) hsizes
  -- The table has the size that chunk 0 has told, and all of it has arrived.
  have hsize : t.chunks.size =
      Chunking.count f.settings.chunkPayload (Books.announced bytes) + 1 :=
    haccount.sized bytes hmem
  exact h.mem_of_received ht (hcomplete c (by omega))

/-- Bytes are to come for a transfer that is not finished. -/
theorem Accounts.remaining_ne_zero (h : Accounts d f) (ht : f.transfer = some t)
    (hphase : f.phase ≠ .finished) : t.remaining ≠ 0 := by
  have hremaining : t.remaining = d.taken.balance := (h.of_transfer ht).remaining
  rw [hremaining]
  exact fun hzero => hphase ((h.finished_iff ht).mpr hzero)

/-- **Transfers that have every chunk.** Take a new fetcher and any calls on it, which do not fail
if they are `Workable`. If chunk 0 and every other chunk of the table have arrived, the transfer
was not rejected, and it is finished if its bytes add up to the length that chunk 0 has told
and not otherwise. They do if each data chunk has the expected length. If the transfer still runs,
nothing is left to be requested, nothing is out and no timer is armed, and whatever happens later it
neither ends nor sends anything, unless its owner ends it. -/
theorem fully_received {id : Nat} (hnew : ofSettings id settings = .ok f) (calls : List Call) :
    (Workable settings calls → ∃ d g, f.follow {} calls = .ok (d, g)) ∧
      ∀ d g t, f.follow {} calls = .ok (d, g) → g.transfer = some t →
        t.chunks.status? 0 = some .received →
        (∀ i < t.chunks.size, t.chunks.status? i = some .received) →
        .rejected ∉ d.told ++ g.events ∧
        (∃ bytes, (0, bytes) ∈ d.taken ∧
          (g.phase = .finished ↔ d.taken.payload = Books.announced bytes) ∧
          (0 < settings.chunkPayload → (∀ part ∈ d.taken, part.1 ≠ 0 → part.2.size =
            Chunking.share settings.chunkPayload (Books.announced bytes) part.1) →
            g.phase = .finished)) ∧
        (g.phase = .downloading →
          t.chunks.nextNeeded = none ∧ t.chunks.inFlight = 0 ∧ g.timers.queue = [] ∧
          ∀ later, (∀ call ∈ later, call ≠ .abort ∧ call ≠ .reset) →
            ∀ d' h, g.follow d later = .ok (d', h) → h.phase = .downloading ∧
              h.transfer.map (·.chunks) = some t.chunks ∧ d'.asked = d.asked) := by
  have horder := inOrder_ofSettings hnew
  refine ⟨fun h => h.follow_ok hnew, ?_⟩
  intro d g t hg ht hzero hcomplete
  have horder' := follow_inOrder horder hg
  have haccounts := follow_accounts hnew hg
  refine ⟨fun hrejected => ?_, ?_, fun hphase => ?_⟩
  · have hends := (follow_tells hnew hg).rejected_iff.mp hrejected
    exact follow_gap hnew hg hends t ht hcomplete
  · obtain ⟨⟨chunk, bytes⟩, hmem, rfl⟩ := List.mem_map.mp (haccounts.mem_of_received ht hzero)
    have hcounted := haccounts.finished_iff_payload ht hmem
    refine ⟨bytes, hmem, hcounted, fun hpayload hsizes => hcounted.mpr ?_⟩
    have hsettings : g.settings = settings := horder'.equipped.settings
    rw [← hsettings] at hpayload hsizes
    exact haccounts.payload_of_complete ht hmem hcomplete hpayload hsizes
  · obtain ⟨t', hclocked, -⟩ := horder'.of_busy hphase
    obtain rfl : t = t' := Option.some.inj (ht.symm.trans hclocked.transfer)
    have hcomplete : t.chunks.Complete := hcomplete
    -- A transfer that runs lacks bytes, though every chunk is there.
    have hremaining : t.remaining ≠ 0 := haccounts.remaining_ne_zero ht (by simp [hphase])
    refine ⟨hcomplete.nextNeeded, hcomplete.inFlight hclocked.counted,
      hclocked.unarmed_of_complete hcomplete, ?_⟩
    intro later hlater d' h hh
    obtain ⟨hstill, ⟨u, hu, husame, -⟩, hasked⟩ :=
      follow_standstill horder' hphase ht hcomplete hremaining hlater hh
    rw [scene_transfer] at hu
    exact ⟨hstill, by rw [hu, Option.map_some, husame], hasked⟩

/-- Data chunks of four bytes are expected. -/
def shortSettings : FetchSettings := { chunkPayload := 4, chunkGuess := 3 }

/-- Chunk 0 tells a length of eight bytes, and the two data chunks have two bytes each. -/
def shortCalls : List Call :=
  [.start 0 sampleSegment, .wake 1 .tick, .wake 2 .tick, dataCall 20 0 ⟨#[0, 0, 0, 8]⟩,
    dataCall 21 1 ⟨#[1, 2]⟩, dataCall 22 2 ⟨#[5, 6]⟩]

/-- The table after these calls: each chunk was requested once and has arrived. -/
def fullTable : ChunkTable :=
  { status := #[.received, .received, .received], attempts := #[1, 1, 1], inFlight := 0 }

/-- The sample table is complete. -/
theorem complete_fullTable : fullTable.Complete := by
  unfold ChunkTable.Complete
  decide

/-- With short data chunks a transfer has every chunk of its resized table and runs on. Nothing is
left to be requested, nothing is out, nothing is due, and the owner was told of no end. -/
theorem short_chunks_stand_still :
    ∃ f d g t, ofSettings 0 shortSettings = .ok f ∧ f.follow {} shortCalls = .ok (d, g) ∧
      g.transfer = some t ∧ t.chunks = fullTable ∧ t.chunks.nextNeeded = none ∧
      t.chunks.inFlight = 0 ∧ g.phase = .downloading ∧ g.nextDue? = none ∧
      d.told ++ g.events = [.soonFinished] := by
  have hvalue : ((ofSettings 0 shortSettings).toOption.bind fun f =>
      (f.follow {} shortCalls).toOption.bind fun r => r.2.transfer.map fun t =>
        (t.chunks, r.2.phase, r.2.nextDue?, r.1.told ++ r.2.events)) =
      some (fullTable, .downloading, none, [.soonFinished]) := by decide +kernel
  obtain ⟨f, hnew, hvalue⟩ := Checked.exists_of_bind_toOption hvalue
  obtain ⟨⟨d, g⟩, hg, hvalue⟩ := Checked.exists_of_bind_toOption hvalue
  obtain ⟨t, ht, hvalues⟩ := Option.map_eq_some_iff.mp hvalue
  simp only [Prod.mk.injEq] at hvalues
  obtain ⟨hchunks, hrest⟩ := hvalues
  exact ⟨f, d, g, t, hnew, hg, ht, hchunks, hchunks.symm ▸ complete_fullTable.nextNeeded,
    hchunks.symm ▸ rfl, hrest⟩

/-- Short data chunks come again, and the owner takes what there is and asks for another segment. -/
def laterCalls : List Call :=
  [dataCall 100 1 ⟨#[1, 2, 3, 4]⟩, .takeEvent, .takeCompleted, .wake 200 .tick,
    .start 300 sampleSegment]

/-- The transfer with short data chunks has four of eight bytes, and runs on after these calls. -/
theorem fully_received_sample :
    Workable shortSettings shortCalls ∧ ∃ f d g t d' h, ofSettings 0 shortSettings = .ok f ∧
      f.follow {} shortCalls = .ok (d, g) ∧ g.transfer = some t ∧
      (∀ i < t.chunks.size, t.chunks.status? i = some .received) ∧ d.taken.payload = 4 ∧
      g.phase = .downloading ∧ g.follow d laterCalls = .ok (d', h) ∧
      h.phase = .downloading ∧ d'.asked = d.asked := by
  have hworkable : Workable shortSettings shortCalls :=
    ⟨by decide, RoundTrip.isPart_default, by decide⟩
  have hvalue : ((ofSettings 0 shortSettings).toOption.bind fun f =>
      (f.follow {} shortCalls).toOption.bind fun r => r.2.transfer.map fun t =>
        (t.chunks, r.2.phase, r.1.taken.payload,
          (r.2.follow r.1 laterCalls).toOption.isSome)) =
      some (fullTable, .downloading, 4, true) := by decide +kernel
  obtain ⟨f, hnew, hvalue⟩ := Checked.exists_of_bind_toOption hvalue
  obtain ⟨hsucceeds, hreceived⟩ := fully_received hnew shortCalls
  obtain ⟨d, g, hg⟩ := hsucceeds hworkable
  rw [hg] at hvalue
  obtain ⟨t, ht, hvalues⟩ := Option.map_eq_some_iff.mp hvalue
  simp only [Prod.mk.injEq] at hvalues
  obtain ⟨hchunks, hphase, hbytes, hlater⟩ := hvalues
  have hall : t.chunks.Complete := hchunks.symm ▸ complete_fullTable
  have hzero : t.chunks.status? 0 = some .received := by
    rw [hchunks]
    rfl
  obtain ⟨-, -, hstill⟩ := hreceived d g t hg ht hzero hall
  obtain ⟨⟨d', h⟩, hlater⟩ := Option.isSome_iff_exists.mp hlater
  have hh : g.follow d laterCalls = .ok (d', h) := Checked.eq_ok_of_toOption hlater
  obtain ⟨hrunning, -, hasked⟩ :=
    (hstill hphase).2.2.2 laterCalls (by simp [laterCalls, dataCall]) d' h hh
  exact ⟨hworkable, f, d, g, t, d', h, hnew, hg, ht, hall, hbytes, hphase, hh, hrunning, hasked⟩

end Fetcher

end LayerCast
