import Mathlib.Algebra.Order.Floor.Div
import LayerCast.Network.Producer
import LayerCast.Proofs.Transfer.Completion

/-!
# `LayerCast.Proofs.Network.Chunks`: producer and fetcher agree on the chunks

A producer computes where a chunk begins and how much is left there, and answers with nothing past
the end of the content. A fetcher computes from the length in chunk 0 how many chunks there are.
Neither knows of the other's computation.

`Content.chunk_eq` says that the producer serves the slices of a content of zeros, so that what is
known of slices holds for its answers. `handle_length` says how long the table of a fetcher is once
it has taken chunk 0. `chunks_agree` puts the two together: exactly the chunks of the table are
served.
-/

set_option autoImplicit false

namespace LayerCast

/-! ### What a producer serves -/

/-- The bytes of a content in a catalog, all zero. -/
def zeros (size : Nat) : ByteArray := ⟨Array.replicate size 0⟩

@[simp] theorem size_zeros (size : Nat) : (zeros size).size = size := Array.size_replicate

/-- A slice of zeros has as many of them as fit and as are left. -/
theorem slice_zeros (size payload c : Nat) :
    Chunking.slice (zeros size) payload (c + 1) = zeros (min payload (size - c * payload)) := by
  have hsize : (Chunking.slice (zeros size) payload (c + 1)).size =
      (zeros (min payload (size - c * payload))).size := by
    rw [Chunking.size_slice, size_zeros, size_zeros]
  refine ByteArray.ext_getElem hsize fun i hleft hright => ?_
  simp only [Chunking.slice, zeros, ByteArray.getElem_extract]
  simp [ByteArray.getElem_eq_getElem_data]

/-- An entry of a catalog is served in the slices of its zeros, behind its length. -/
theorem Content.chunk_eq {content : Content} {payload c : Nat} (hsize : content.size < word32)
    (hpayload : 0 < payload) (hword : payload ≤ word32) (hc : c < word32) :
    content.chunk payload c =
      .ok ((Chunking.chunk? (zeros content.size) payload c).map .data) := by
  cases c with
  | zero =>
      simp only [chunk, Content.length, Chunking.chunk?, if_pos, hsize, size_zeros]
      rfl
  | succ c =>
      -- Neither the number of a chunk nor its size is too large for the product to be a word.
      have hfits : c * payload < word64 :=
        calc
          c * payload ≤ c * word32 := Nat.mul_le_mul_left c hword
          _ < word32 * word32 := Nat.mul_lt_mul_of_pos_right (by omega) (by decide)
          _ = word64 := by decide
      have hoffset : Checked.mul (c + 1 - 1) payload = .ok (c * payload) :=
        Checked.mul_eq_ok_iff.mpr ⟨hfits, rfl⟩
      rw [chunk, if_neg (Nat.succ_ne_zero c), hoffset]
      show Except.ok (content.piece payload (c * payload)) = _
      rw [piece, Chunking.chunk?, if_neg (Nat.succ_ne_zero c), size_zeros, slice_zeros]
      by_cases hleft : c * payload < content.size
      · rw [if_neg (Nat.not_le.mpr hleft), if_pos ((Chunking.succ_le_count hpayload).mpr hleft)]
        rfl
      · rw [if_pos (Nat.not_lt.mp hleft),
          if_neg fun h => hleft ((Chunking.succ_le_count hpayload).mp h)]
        rfl

/-- A producer answers for an entry of its catalog that it does not refuse. -/
theorem Producer.respond_eq {p : Producer} {name : String} {content : Content}
    (hcatalog : p.catalog[name]? = some content) (hlevel : p.refuses content.level = false)
    (c : Nat) : p.respond ⟨name, c⟩ = content.chunk p.settings.chunkPayload c := by
  simp [respond, hcatalog, hlevel]

/-! ### What a fetcher expects -/

/-- A fetcher that waits for chunk 0 makes its table as long as the length in chunk 0 says. -/
theorem Fetcher.handle_length {f g : Fetcher} {t : Transfer} (hbusy : f.isBusy = true)
    (ht : f.transfer = some t)
    (hasked : t.chunks.status? 0 = some .requested ∨ t.chunks.status? 0 = some .timedOut)
    {length : Nat} (hlength : length < word32) {now : Nat}
    (hg : f.handle now (.reply ⟨⟨t.name, 0⟩, .data (Length.encode length)⟩) = .ok g) :
    ∃ u, g.transfer = some u ∧
      u.chunks.size = Chunking.count f.settings.chunkPayload length + 1 := by
  have hphase : f.phase = .downloading := by simpa [isBusy] using hbusy
  have hdecode := Length.decode?_encode hlength
  obtain ⟨b, hnew⟩ := ChunkTable.new_iff.mpr hasked
  have hshort : isShort 0 (Length.encode length) = false := by simp [isShort, hdecode]
  have htaken : f.taken? (.reply ⟨⟨t.name, 0⟩, .data (Length.encode length)⟩) =
      some (0, Length.encode length) :=
    (taken?_data hphase ht rfl).trans (takes?_of_new hshort hnew)
  -- The table is seen through the books only, which the sizes can be read off.
  have hbooks := handle_books (show f.books? = some (f.books t) by rw [books?, ht]; rfl) hg
  rw [htaken] at hbooks
  obtain ⟨u, hu, hsame⟩ := Option.map_eq_some_iff.mp hbooks
  refine ⟨u, hu, ?_⟩
  have hsize : (g.books u).size =
      (((f.books t).noteLength (Books.announced (Length.encode length))).settle).size :=
    congrArg Books.size hsame
  have hsettle : ∀ b : Books, b.settle.size = b.size := fun b => by
    unfold Books.settle
    split <;> rfl
  rw [hsettle, Books.announced, hdecode] at hsize
  exact hsize

/-! ### Agreement -/

/-- **Producer and fetcher agree on the chunks** of every content whose length fits into four bytes
and whose layer is not refused, for every size of a chunk up to `2 ^ 32`. The producer answers for
chunk 0 with the length. A fetcher that waits for chunk 0 computes from it the number of chunks, 0
among them; that can only fail with its round trip estimate, and does not as long as that is tame
and time stays within the horizon. The producer has data for each of the others, at least a byte and
at most what a chunk may have, and just that for all but the last one. Together these are all bytes
of the content. It is silent on every chunk behind them. -/
theorem chunks_agree {p : Producer} {content : Content} {f : Fetcher} {t : Transfer}
    (hcatalog : p.catalog[t.name]? = some content) (hlevel : p.refuses content.level = false)
    (hsize : content.size < word32) (hpayload : 1 ≤ p.settings.chunkPayload)
    (hword : p.settings.chunkPayload ≤ word32)
    (hsame : f.settings.chunkPayload = p.settings.chunkPayload) (hbusy : f.isBusy = true)
    (ht : f.transfer = some t)
    (hasked : t.chunks.status? 0 = some .requested ∨ t.chunks.status? 0 = some .timedOut)
    (now : Nat) :
    ∃ length count, ∃ piece : Nat → ByteArray,
      p.respond ⟨t.name, 0⟩ = .ok (some (.data length)) ∧
      Length.decode? length = some content.size ∧
      count = content.size ⌈/⌉ p.settings.chunkPayload + 1 ∧
      (f.roundTrip.Tame → now ≤ RoundTrip.horizon →
        ∃ g, f.handle now (.reply ⟨⟨t.name, 0⟩, .data length⟩) = .ok g) ∧
      (∀ g, f.handle now (.reply ⟨⟨t.name, 0⟩, .data length⟩) = .ok g →
        ∃ u, g.transfer = some u ∧ u.chunks.size = count) ∧
      (∀ c, 1 ≤ c → c < count →
        p.respond ⟨t.name, c⟩ = .ok (some (.data (piece c))) ∧ 1 ≤ (piece c).size ∧
          (piece c).size ≤ p.settings.chunkPayload ∧
          (c + 1 < count → (piece c).size = p.settings.chunkPayload)) ∧
      ∑ c ∈ Finset.Ico 1 count, (piece c).size = content.size ∧
      ∀ c, count ≤ c → c < word32 → p.respond ⟨t.name, c⟩ = .ok none := by
  -- The serving end cuts a content of zeros. Only the sizes matter.
  have hserved : ∀ c < word32, p.respond ⟨t.name, c⟩ =
      .ok ((Chunking.chunk? (zeros content.size) p.settings.chunkPayload c).map .data) :=
    fun c hc => (Producer.respond_eq hcatalog hlevel c).trans
      (Content.chunk_eq hsize hpayload hword hc)
  have hcount : Chunking.count p.settings.chunkPayload content.size ≤ content.size :=
    Chunking.count_le hpayload
  have hfetcher : 0 < f.settings.chunkPayload := hsame ▸ hpayload
  refine ⟨Length.encode content.size, Chunking.count p.settings.chunkPayload content.size + 1,
    Chunking.slice (zeros content.size) p.settings.chunkPayload, ?_,
    Length.decode?_encode hsize, ?_, fun htame hnow => Fetcher.handle_ok hfetcher htame hnow _,
    fun g hg => ?_, ?_, ?_, ?_⟩
  · rw [hserved 0 (by decide), Chunking.chunk?, if_pos rfl, size_zeros]
    rfl
  · rw [Nat.ceilDiv_eq_add_pred_div, Chunking.count]
  · rw [← hsame]
    exact Fetcher.handle_length hbusy ht hasked hsize hg
  · intro c hfirst hlast
    have hthere : c ≤ Chunking.count p.settings.chunkPayload (zeros content.size).size := by
      rw [size_zeros]
      omega
    have hpos := Chunking.size_slice_pos hpayload hfirst hthere
    obtain ⟨c, rfl⟩ := Nat.exists_eq_add_one.mpr hfirst
    refine ⟨?_, hpos, ?_, ?_⟩
    · rw [hserved (c + 1) (by omega), Chunking.chunk?, if_neg (by omega), if_pos hthere]
      rfl
    · rw [Chunking.size_slice]
      exact Nat.min_le_left ..
    · -- Bytes are left for another chunk, so that this one is full.
      intro hmore
      have hleft : (c + 1) * p.settings.chunkPayload < content.size :=
        (Chunking.succ_le_count hpayload).mp (by omega)
      rw [Nat.add_mul] at hleft
      rw [Chunking.size_slice, size_zeros]
      omega
  · have hsum := Chunking.sum_size (zeros content.size) hpayload
    rw [size_zeros] at hsum
    exact hsum
  · intro c hbehind hc
    rw [hserved c hc, Chunking.chunk?, if_neg (by omega), size_zeros, if_neg (by omega)]
    rfl

/-- A producer of ten bytes in data chunks of four. -/
def sampleProducer : Producer :=
  ({ settings := { chunkPayload := 4 } } : Producer).insert Fetcher.sampleSegment.uri 10 0

/-- The sample fetcher with its first request out. -/
def askingFetcher : Fetcher := Fetcher.sampleFetcher.begin 0 Fetcher.sampleSegment

/-- Ten bytes make chunk 0 and three data chunks. -/
theorem chunks_agree_sample :
    askingFetcher.roundTrip.Tame ∧ ∃ t length g u, askingFetcher.transfer = some t ∧
      sampleProducer.respond ⟨t.name, 0⟩ = .ok (some (.data length)) ∧
      askingFetcher.handle 20 (.reply ⟨⟨t.name, 0⟩, .data length⟩) = .ok g ∧
      g.transfer = some u ∧ u.chunks.size = 4 ∧
      (∃ last, sampleProducer.respond ⟨t.name, 3⟩ = .ok (some (.data last)) ∧ 1 ≤ last.size) ∧
      sampleProducer.respond ⟨t.name, 4⟩ = .ok none := by
  obtain ⟨t, ht, hname, hasked⟩ : ∃ t, askingFetcher.transfer = some t ∧
      t.name = Fetcher.sampleSegment.name ∧ t.chunks.status? 0 = some .requested :=
    ⟨_, rfl, rfl, rfl⟩
  have hcatalog : sampleProducer.catalog[t.name]? = some ⟨10, 0⟩ := by
    rw [hname]
    exact Std.HashMap.getElem?_insert_self
  have hpayload : 1 ≤ sampleProducer.settings.chunkPayload := by decide
  have hword : sampleProducer.settings.chunkPayload ≤ word32 := by decide
  have htame : askingFetcher.roundTrip.Tame :=
    Fetcher.begin_tame Fetcher.tame_sampleFetcher 0 Fetcher.sampleSegment
  obtain ⟨length, count, piece, hlength, -, hcount, hreturns, htable, hpieces, -, hbehind⟩ :=
    chunks_agree hcatalog rfl (by decide) hpayload hword rfl rfl ht (.inl hasked) 20
  obtain ⟨g, hg⟩ := hreturns htame (by decide)
  obtain ⟨u, hu, hsize⟩ := htable g hg
  have hfour : count = 4 := hcount.trans (by decide)
  obtain ⟨hlast, hpos, -⟩ := hpieces 3 (by decide) (by omega)
  exact ⟨htame, t, length, g, u, ht, hlength, hg, hu, hsize.trans hfour, ⟨piece 3, hlast, hpos⟩,
    hbehind 4 (by omega) (by decide)⟩

end LayerCast
