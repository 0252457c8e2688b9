import LayerCast.Proofs.Transfer.Chunking
import LayerCast.Proofs.Transfer.Ledger

/-!
# `LayerCast.Proofs.Transfer.Completion`: a transfer ends with its content

Over a network that serves a content (`Serves`), the log of a transfer holds chunks of that
content and nothing else (`Genuine`). Its balance is then the length of the content less the sizes
of the slices that are there, or negative as long as chunk 0 is missing (`balance_eq`), and so it
is 0 only when every chunk was taken (`balance_eq_zero_iff`). With the ledger this gives:

* `run_finished_iff`: a transfer is finished when every chunk of the content was taken and not
  before, and then its delivery holds the content.

The network may lose, delay, repeat and reorder what it sends, answer under other names, and
refuse requests. Wakes may come at any moment and in any order.
-/

set_option autoImplicit false

namespace LayerCast

namespace ChunkLog

/-! ### The balance of genuine data -/

/-- The data that was taken belongs to a content. -/
def Genuine (content : ByteArray) (payload : Nat) (log : ChunkLog) : Prop :=
  ∀ part ∈ log, Chunking.chunk? content payload part.1 = some part.2

/-- The data chunks that were taken. -/
def dataChunks (log : ChunkLog) : Finset Nat := log.chunks.toFinset.erase 0

variable {content : ByteArray} {payload : Nat} {log : ChunkLog}

/-- Genuine data chunks are slices. -/
theorem Genuine.slice (h : log.Genuine content payload) {part : Nat × ByteArray}
    (hpart : part ∈ log) (hne : part.1 ≠ 0) :
    part.1 ≤ Chunking.count payload content.size ∧
      part.2 = Chunking.slice content payload part.1 := by
  -- Behind the last slice nothing is served.
  have hchunk := h part hpart
  rw [Chunking.chunk?, if_neg hne] at hchunk
  split at hchunk
  · rename_i hlast
    exact ⟨hlast, (Option.some.inj hchunk).symm⟩
  · cases hchunk

/-- All chunks but chunk 0 bring data. -/
theorem mem_dataChunks {c : Nat} : c ∈ log.dataChunks ↔ c ∈ log.chunks ∧ c ≠ 0 := by
  rw [dataChunks, Finset.mem_erase, List.mem_toFinset]
  exact and_comm

/-- Genuine data chunks lie between the first and the last slice. -/
theorem Genuine.dataChunks_subset (h : log.Genuine content payload) :
    log.dataChunks ⊆ Finset.Icc 1 (Chunking.count payload content.size) := by
  intro c hc
  obtain ⟨hmem, hne⟩ := mem_dataChunks.mp hc
  obtain ⟨part, hpart, rfl⟩ := List.mem_map.mp hmem
  exact Finset.mem_Icc.mpr ⟨Nat.one_le_iff_ne_zero.mpr hne, (h.slice hpart hne).1⟩

/-- To take chunk 0 is to take no data chunk. -/
theorem dataChunks_cons_zero (bytes : ByteArray) :
    dataChunks ((0, bytes) :: log) = log.dataChunks := by
  ext c
  rw [mem_dataChunks, mem_dataChunks, mem_chunks_cons]
  exact and_congr_left fun hne => or_iff_right hne

/-- To take any other chunk is to take one more. -/
theorem dataChunks_cons {chunk : Nat} (hchunk : chunk ≠ 0) (bytes : ByteArray) :
    dataChunks ((chunk, bytes) :: log) = insert chunk log.dataChunks := by
  ext c
  rw [Finset.mem_insert, mem_dataChunks, mem_dataChunks, mem_chunks_cons, or_and_right]
  exact or_congr_left (and_iff_left_of_imp fun hc => hc ▸ hchunk)

/-- The bytes still to come are the announced ones less those of the slices that are there. -/
theorem balance_eq (h : log.Genuine content payload) (honce : log.chunks.Nodup)
    (hsize : content.size < word32) :
    log.balance = (if 0 ∈ log.chunks then (content.size : Int) else -1)
      - ((∑ c ∈ log.dataChunks, (Chunking.slice content payload c).size : Nat) : Int) := by
  induction log with
  | nil => simp [balance, chunks, dataChunks]
  | cons first rest ih =>
      obtain ⟨chunk, bytes⟩ := first
      obtain ⟨hnew, hrest⟩ := nodup_chunks_cons.mp honce
      have ih := ih (fun part hpart => h part (List.mem_cons_of_mem _ hpart)) hrest
      by_cases hzero : chunk = 0
      · -- Chunk 0 adds the length and 1, which makes up for the -1 at the start.
        subst hzero
        have hlength : Books.announced bytes = content.size := by
          have hbytes : some (Length.encode content.size) = some bytes := h _ List.mem_cons_self
          rw [Books.announced, ← Option.some.inj hbytes, Length.decode?_encode hsize]
          rfl
        have hmem : 0 ∈ chunks ((0, bytes) :: rest) := mem_chunks_cons.mpr (.inl rfl)
        rw [balance, if_pos rfl, ih, dataChunks_cons_zero, if_pos hmem, if_neg hnew, hlength]
        omega
      · -- A data chunk takes off its slice, which was not there before.
        have hbytes : bytes = Chunking.slice content payload chunk :=
          (h.slice List.mem_cons_self hzero).2
        have hfresh : chunk ∉ dataChunks rest := fun hmem => hnew (mem_dataChunks.mp hmem).1
        have hmem : 0 ∈ chunks ((chunk, bytes) :: rest) ↔ 0 ∈ chunks rest :=
          mem_chunks_cons.trans (or_iff_right (Ne.symm hzero))
        rw [balance, if_neg hzero, ih, dataChunks_cons hzero, Finset.sum_insert hfresh]
        simp only [hmem, ← hbytes]
        push_cast
        omega

/-- No byte is to come when every chunk was taken, and not before. -/
theorem balance_eq_zero_iff (h : log.Genuine content payload) (honce : log.chunks.Nodup)
    (hsize : content.size < word32) (hpayload : 0 < payload) :
    log.balance = 0 ↔ ∀ c ≤ Chunking.count payload content.size, c ∈ log.chunks := by
  rw [balance_eq h honce hsize]
  constructor
  · intro hbalance
    -- Without chunk 0 the balance is negative.
    have hzero : 0 ∈ log.chunks := by
      by_contra hmissing
      rw [if_neg hmissing] at hbalance
      omega
    rw [if_pos hzero] at hbalance
    intro c hc
    -- A slice that is missing leaves bytes to come.
    by_contra hmissing
    have hfirst : 1 ≤ c := Nat.one_le_iff_ne_zero.mpr fun h0 => hmissing (h0 ▸ hzero)
    have hlt := Chunking.sum_size_lt hpayload h.dataChunks_subset (Finset.mem_Icc.mpr ⟨hfirst, hc⟩)
      fun hmem => hmissing (mem_dataChunks.mp hmem).1
    omega
  · intro hall
    -- With all chunks there the slices are all slices, which hold the content.
    have hdata : log.dataChunks = Finset.Icc 1 (Chunking.count payload content.size) := by
      refine h.dataChunks_subset.antisymm fun c hc => ?_
      obtain ⟨hfirst, hlast⟩ := Finset.mem_Icc.mp hc
      exact mem_dataChunks.mpr ⟨hall c hlast, by omega⟩
    rw [if_pos (hall 0 (Nat.zero_le _)), hdata, Chunking.sum_size content hpayload]
    omega

/-- When every chunk was taken, the parts are put together to the content. -/
theorem assemble_parts (h : log.Genuine content payload) (honce : log.chunks.Nodup)
    (hpayload : 0 < payload)
    (hall : ∀ c ≤ Chunking.count payload content.size, c ∈ log.chunks) :
    Fetcher.assemble log.parts = content := by
  refine Chunking.assemble_eq_content hpayload (pairwise_parts honce) fun part => ?_
  rw [mem_parts honce]
  constructor
  · rintro ⟨hpart, hne⟩
    obtain ⟨hlast, hbytes⟩ := h.slice hpart hne
    exact ⟨Nat.one_le_iff_ne_zero.mpr hne, hlast, hbytes⟩
  · rintro ⟨hfirst, hlast, hbytes⟩
    have hne : part.1 ≠ 0 := by omega
    -- Something was taken under this number, and it can only have been this slice.
    obtain ⟨taken, htaken, hchunk⟩ := List.mem_map.mp (hall part.1 hlast)
    have htakenBytes := (h.slice htaken (hchunk ▸ hne)).2
    have hsame : part = taken := Prod.ext hchunk.symm (by rw [hbytes, htakenBytes, hchunk])
    exact ⟨hsame ▸ htaken, hne⟩

end ChunkLog

/-! ### Transfers over a network that serves a content -/

/-- The network serves a content under a name: all data that comes under it is a chunk of the
content. -/
def Serves (content : ByteArray) (payload : Nat) (name : String) (hs : List Happening) : Prop :=
  ∀ now chunk bytes, .wake now (.reply ⟨⟨name, chunk⟩, .data bytes⟩) ∈ hs →
    Chunking.chunk? content payload chunk = some bytes

namespace Fetcher

/-- **Transfers are correct.** Whatever happens to a transfer over a network that serves a
content, it is finished when every chunk of the content was taken and not before. No chunk is
taken twice, and the delivery of a finished transfer holds the content.

The list of happenings is any list, and so is every beginning of it. The transfer is therefore
finished by the very happening that brings the last chunk. What happens can only fail with the round
trip estimate, and does not as long as that is tame and time stays within the horizon. -/
theorem run_finished_iff {f : Fetcher} (hidle : f.isBusy = false)
    (hpayload : 0 < f.settings.chunkPayload) {content : ByteArray}
    (hsize : content.size < word32) {s : Segment} {hs : List Happening}
    (hserves : Serves content f.settings.chunkPayload s.name hs) (start : Nat) :
    ∃ f₀, f.start? start s = some f₀ ∧
      (f.roundTrip.Tame → (∀ now w, .wake now w ∈ hs → now ≤ RoundTrip.horizon) →
        ∃ log g, f₀.run [] hs = .ok (log, g)) ∧
      ∀ log g, f₀.run [] hs = .ok (log, g) →
        log.chunks.Nodup ∧
        (g.isFinished = true ↔
          ∀ c ≤ Chunking.count f.settings.chunkPayload content.size, c ∈ log.chunks) ∧
        (g.isFinished = true →
          ∃ d, g.takeCompleted.1 = some d ∧ d.segment = s ∧ d.bytes = content) := by
  obtain ⟨f₀, hstart, hbooks, htame⟩ := start?_books hidle start s
  refine ⟨f₀, hstart, fun h hclock => run_ok hs [] hbooks hpayload (htame h) hclock,
    fun log g hrun => ?_⟩
  obtain ⟨b, hgbooks, hledger, hsegment, hcame⟩ :=
    run_ledger hs hbooks (f.freshBooks_ledger s) hrun
  obtain ⟨t, ht, rfl⟩ : ∃ t, g.transfer = some t ∧ g.books t = b :=
    Option.map_eq_some_iff.mp hgbooks
  -- What was taken has come from the network, which serves the content.
  have hgenuine : log.Genuine content f.settings.chunkPayload := by
    intro part hpart
    rcases hcame part hpart with hnil | ⟨now, name, hreply, hname, hchunk⟩
    · cases hnil
    · have hfull : name = ⟨s.name, part.1⟩ := by
        rw [← hchunk]
        exact congrArg (ChunkName.mk · name.chunk) hname
      exact hserves now part.1 part.2 (hfull ▸ hreply)
  have hfinished := hledger.finished.trans
    (ChunkLog.balance_eq_zero_iff hgenuine hledger.once hsize hpayload)
  refine ⟨hledger.once, hfinished, fun hg => ?_⟩
  -- A finished transfer delivers its parts, and these make up the content.
  have hresult : g.completed.map (fun d => (d.segment, d.bytes)) = some (t.segment, _) :=
    hledger.result hg
  obtain ⟨d, hd, hpair⟩ := Option.map_eq_some_iff.mp hresult
  have hbytes := ChunkLog.assemble_parts hgenuine hledger.once hpayload (hfinished.mp hg)
  exact ⟨d, hd, (congrArg Prod.fst hpair).trans hsegment, (congrArg Prod.snd hpair).trans hbytes⟩

/-- Five bytes in data chunks of four. -/
def sampleContent : ByteArray := ⟨#[1, 2, 3, 4, 5]⟩

def sampleSegment : Segment :=
  { uri := "http://a/s0", size := some 5, duration := 1000, level := 0, bandwidth := 1,
    representation := "r", number := 0 }

/-- A fetcher that asks for data chunks of four bytes and guesses three chunks. -/
def sampleFetcher : Fetcher :=
  { id := 0
    settings := { chunkPayload := 4, chunkGuess := 3 }
    freshWindow := { rule := .static, size := 4, threshold := 1, ceiling := 4 }
    window := none
    roundTrip := RoundTrip.ofSettings {} }

/-- Data of the sample content under the number of a chunk. -/
def sampleReply (chunk : Nat) (bytes : ByteArray) : Happening :=
  .wake 30 (.reply ⟨⟨sampleSegment.name, chunk⟩, .data bytes⟩)

/-- The last data chunk comes twice and before chunk 0, and chunk 1 after its timeout. -/
def sampleRun : List Happening :=
  [.sent, .wake 10 .tick, .wake 20 .tick, sampleReply 2 ⟨#[5]⟩, sampleReply 2 ⟨#[5]⟩,
    .wake 40 (.timer 1), sampleReply 0 ⟨#[0, 0, 0, 5]⟩, sampleReply 1 ⟨#[1, 2, 3, 4]⟩]

/-- In the sample run every reply is a slice of the sample content. -/
theorem serves_sampleRun : Serves sampleContent 4 sampleSegment.name sampleRun := by
  intro now chunk bytes h
  simp only [sampleRun, sampleReply, List.mem_cons, List.not_mem_nil, or_false, reduceCtorEq,
    Happening.wake.injEq, Wake.reply.injEq, Reply.mk.injEq, ChunkName.mk.injEq,
    ReplyBody.data.injEq, false_or, and_false] at h
  rcases h with ⟨-, ⟨-, rfl⟩, rfl⟩ | ⟨-, ⟨-, rfl⟩, rfl⟩ | ⟨-, ⟨-, rfl⟩, rfl⟩ |
    ⟨-, ⟨-, rfl⟩, rfl⟩ <;> decide +kernel

/-- The default gain is a part of 1, so that the estimate of the sample fetcher does not fail. -/
theorem tame_sampleFetcher : sampleFetcher.roundTrip.Tame :=
  RoundTrip.tame_ofSettings RoundTrip.isPart_default

/-- All of the sample run comes within the horizon. -/
theorem sampleRun_clock {now : Nat} {w : Wake} (h : .wake now w ∈ sampleRun) :
    now ≤ RoundTrip.horizon := by
  have hearly : now ≤ 40 := by
    simp only [sampleRun, sampleReply, List.mem_cons, List.not_mem_nil, or_false, reduceCtorEq,
      Happening.wake.injEq, false_or] at h
    omega
  exact Nat.le_trans hearly (by decide)

/-- The sample run takes chunk 2, chunk 0 and chunk 1, and delivers the sample content. -/
theorem run_finished_iff_sample :
    sampleFetcher.isBusy = false ∧ 0 < sampleFetcher.settings.chunkPayload ∧
      sampleContent.size < word32 ∧ Serves sampleContent 4 sampleSegment.name sampleRun ∧
      sampleFetcher.roundTrip.Tame ∧
      ∃ f₀ log g, sampleFetcher.start? 0 sampleSegment = some f₀ ∧
        f₀.run [] sampleRun = .ok (log, g) ∧ log.chunks = [1, 0, 2] ∧
        ∃ d, g.takeCompleted.1 = some d ∧ d.segment = sampleSegment ∧ d.bytes = sampleContent := by
  have hidle : sampleFetcher.isBusy = false := rfl
  have hpayload : 0 < sampleFetcher.settings.chunkPayload := by decide
  have hsize : sampleContent.size < word32 := by decide
  obtain ⟨f₀, hstart, hreturns, hlaw⟩ :=
    run_finished_iff hidle hpayload hsize serves_sampleRun 0
  obtain ⟨log, g, hrun⟩ := hreturns tame_sampleFetcher fun _ _ => sampleRun_clock
  obtain ⟨-, -, hdelivery⟩ := hlaw log g hrun
  have hvalue : ((sampleFetcher.start? 0 sampleSegment).bind fun f =>
      (f.run [] sampleRun).toOption.map fun r => (r.1.chunks, r.2.isFinished)) =
      some ([1, 0, 2], true) := by decide +kernel
  rw [hstart, Option.bind_some, hrun] at hvalue
  obtain ⟨hchunks, hfinished⟩ := Prod.mk.inj (Option.some.inj hvalue)
  exact ⟨hidle, hpayload, hsize, serves_sampleRun, tame_sampleFetcher, f₀, log, g, hstart, hrun,
    hchunks, hdelivery hfinished⟩

end Fetcher

end LayerCast
