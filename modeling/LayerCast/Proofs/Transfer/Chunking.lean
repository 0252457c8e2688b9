import Mathlib.Algebra.BigOperators.Intervals
import Mathlib.Algebra.Order.BigOperators.Group.Finset
import LayerCast.Transfer.Fetcher

/-!
# `LayerCast.Proofs.Transfer.Chunking`: content cut into chunks

A content of `L` bytes is served as chunk 0, which tells the length, and as data chunks of
`payload` bytes each, of which the last one may be shorter (`chunk?`). The facts that a transfer
of it depends on are:

* `decode?_encode`: chunk 0 tells every length below `2 ^ 32`.
* `sum_size_lt`: as long as a data chunk is missing, so are bytes. This is why counting bytes is
  enough to know that every chunk is there.
* `assemble_eq_content`: all data chunks, the highest number first, are put together to the
  content.
-/

set_option autoImplicit false

namespace LayerCast

namespace Length

/-- A length is one byte long in each of four places. -/
theorem size_encode (n : Nat) : (encode n).size = 4 := rfl

/-- Chunk 0 tells every length that fits into four bytes. -/
theorem decode?_encode {n : Nat} (h : n < word32) : decode? (encode n) = some n := by
  have hbytes : ((encode n).extract 0 4).data.toList =
      [(n / 16777216).toUInt8, (n / 65536).toUInt8, (n / 256).toUInt8, n.toUInt8] := by
    have hall : (encode n).extract 0 4 = encode n := by
      rw [← size_encode n]
      exact ByteArray.extract_zero_size
    rw [hall]
    rfl
  unfold decode?
  rw [hbytes]
  simp only [Nat.toUInt8_eq, UInt8.toNat_ofNat', Option.some.injEq]
  -- The four digits to the base 256 of a number below `256 ^ 4` make up the number.
  unfold word32 at h
  omega

end Length

namespace Chunking

/-! ### The chunks of a content -/

/-- The number of data chunks of a content of `length` bytes. -/
def count (payload length : Nat) : Nat := (length + payload - 1) / payload

/-- The bytes of data chunk `c`, counted from 1. -/
def slice (content : ByteArray) (payload c : Nat) : ByteArray :=
  content.extract ((c - 1) * payload) (c * payload)

/-- What is served under the number of a chunk: the length, a slice, or nothing behind the last
slice. -/
def chunk? (content : ByteArray) (payload c : Nat) : Option ByteArray :=
  if c = 0 then some (Length.encode content.size)
  else if c ≤ count payload content.size then some (slice content payload c)
  else none

/-- A data chunk exists when a byte is left for it. -/
theorem succ_le_count {payload length c : Nat} (hpayload : 0 < payload) :
    c + 1 ≤ count payload length ↔ c * payload < length := by
  unfold count
  rw [Nat.le_div_iff_mul_le hpayload, Nat.add_mul]
  omega

/-- The data chunks reach to the end. -/
theorem length_le_mul {payload length : Nat} (hpayload : 0 < payload) :
    length ≤ count payload length * payload := by
  -- If bytes were left, there would be one more data chunk.
  by_contra hlt
  have hnext : count payload length + 1 ≤ count payload length :=
    (succ_le_count hpayload).mpr (by omega)
  omega

/-- Every data chunk has a byte, so that there are no more of them than bytes. -/
theorem count_le {payload length : Nat} (hpayload : 0 < payload) :
    count payload length ≤ length := by
  by_contra hlt
  have hbytes : length * payload < length :=
    (succ_le_count hpayload).mp (Nat.succ_le_of_lt (Nat.lt_of_not_le hlt))
  exact absurd hbytes (Nat.not_lt.mpr (Nat.le_mul_of_pos_right length hpayload))

/-- A slice is as long as a data chunk may be, or as what is left. -/
theorem size_slice (content : ByteArray) (payload c : Nat) :
    (slice content payload (c + 1)).size = min payload (content.size - c * payload) := by
  unfold slice
  rw [ByteArray.size_extract, Nat.add_sub_cancel, Nat.add_mul]
  omega

/-- No data chunk is empty. -/
theorem size_slice_pos {content : ByteArray} {payload c : Nat} (hpayload : 0 < payload)
    (hfirst : 1 ≤ c) (hlast : c ≤ count payload content.size) :
    0 < (slice content payload c).size := by
  obtain ⟨c, rfl⟩ : ∃ d, c = d + 1 := ⟨c - 1, by omega⟩
  -- The slices before this one have left at least a byte.
  have hleft : c * payload < content.size := (succ_le_count hpayload).mp hlast
  rw [size_slice]
  omega

/-! ### How many bytes the chunks hold -/

/-- The first slices hold what they may, up to the whole content. -/
theorem sum_size_Icc (content : ByteArray) (payload k : Nat) :
    ∑ c ∈ Finset.Icc 1 k, (slice content payload c).size = min (k * payload) content.size := by
  -- Induction on the number of slices, of which the last one holds what it may.
  induction k with
  | zero => simp
  | succ k ih =>
      rw [Finset.sum_Icc_succ_top (by omega), ih, size_slice, Nat.add_mul]
      omega

/-- All slices hold the content. -/
theorem sum_size (content : ByteArray) {payload : Nat} (hpayload : 0 < payload) :
    ∑ c ∈ Finset.Icc 1 (count payload content.size), (slice content payload c).size =
      content.size := by
  rw [sum_size_Icc]
  exact Nat.min_eq_right (length_le_mul hpayload)

/-- As long as a data chunk is missing, the others hold less than the content. -/
theorem sum_size_lt {content : ByteArray} {payload c : Nat} (hpayload : 0 < payload)
    {present : Finset Nat} (hpresent : present ⊆ Finset.Icc 1 (count payload content.size))
    (hc : c ∈ Finset.Icc 1 (count payload content.size)) (hmissing : c ∉ present) :
    ∑ i ∈ present, (slice content payload i).size < content.size := by
  have hpos : 0 < (slice content payload c).size :=
    size_slice_pos hpayload (Finset.mem_Icc.mp hc).1 (Finset.mem_Icc.mp hc).2
  -- The slices that are there are among all slices, and the missing one is not empty.
  calc ∑ i ∈ present, (slice content payload i).size
      < ∑ i ∈ Finset.Icc 1 (count payload content.size), (slice content payload i).size :=
        Finset.sum_lt_sum_of_subset hpresent hc hmissing hpos fun _ _ _ => Nat.zero_le _
    _ = content.size := sum_size content hpayload

/-! ### Putting the chunks together -/

/-- The first data chunks, the highest number first. -/
def descending (content : ByteArray) (payload : Nat) : Nat → List (Nat × ByteArray)
  | 0 => []
  | k + 1 => (k + 1, slice content payload (k + 1)) :: descending content payload k

/-- The parts of the content are its slices, numbered from 1. -/
theorem mem_descending {content : ByteArray} {payload k : Nat} {part : Nat × ByteArray} :
    part ∈ descending content payload k ↔
      1 ≤ part.1 ∧ part.1 ≤ k ∧ part.2 = slice content payload part.1 := by
  induction k with
  | zero =>
      simp only [descending, List.not_mem_nil, false_iff]
      omega
  | succ k ih =>
      rw [descending, List.mem_cons, ih]
      constructor
      · rintro (rfl | ⟨hfirst, hlast, hbytes⟩)
        · exact ⟨by simp, by simp, rfl⟩
        · exact ⟨hfirst, by omega, hbytes⟩
      · rintro ⟨hfirst, hlast, hbytes⟩
        -- The number belongs to the first part, or the part comes further down.
        by_cases htop : part.1 = k + 1
        · exact .inl (Prod.ext htop (by rw [hbytes, htop]))
        · exact .inr ⟨hfirst, by omega, hbytes⟩

/-- They come in falling order of their numbers. -/
theorem pairwise_descending (content : ByteArray) (payload k : Nat) :
    (descending content payload k).Pairwise fun a b => b.1 < a.1 := by
  induction k with
  | zero => exact List.Pairwise.nil
  | succ k ih =>
      refine List.Pairwise.cons (fun part hpart => ?_) ih
      have hlast : part.1 ≤ k := (mem_descending.mp hpart).2.1
      show part.1 < k + 1
      omega

/-- The first data chunks are put together to the beginning of the content. -/
theorem assemble_descending (content : ByteArray) (payload k : Nat) :
    Fetcher.assemble (descending content payload k) = content.extract 0 (k * payload) := by
  induction k with
  | zero => simp [descending, Fetcher.assemble]
  | succ k ih =>
      -- The highest number comes first in the list and last in the content.
      show Fetcher.assemble (descending content payload k) ++ slice content payload (k + 1) = _
      rw [ih, slice, Nat.add_sub_cancel, ByteArray.extract_append_extract]
      rw [Nat.min_eq_left (Nat.zero_le _),
        Nat.max_eq_right (Nat.mul_le_mul_right payload (Nat.le_succ k))]

/-- Parts in descending order that are exactly the data chunks are put together to the content. -/
theorem assemble_eq_content {content : ByteArray} {payload : Nat} (hpayload : 0 < payload)
    {parts : List (Nat × ByteArray)} (horder : parts.Pairwise fun a b => b.1 < a.1)
    (hparts : ∀ part, part ∈ parts ↔ 1 ≤ part.1 ∧ part.1 ≤ count payload content.size ∧
      part.2 = slice content payload part.1) :
    Fetcher.assemble parts = content := by
  -- Two strictly descending lists with the same members are one list.
  have hsame : parts = descending content payload (count payload content.size) := by
    have horder' := pairwise_descending content payload (count payload content.size)
    have hmem : ∀ part, part ∈ parts ↔
        part ∈ descending content payload (count payload content.size) := fun part =>
      (hparts part).trans mem_descending.symm
    have hperm : parts.Perm (descending content payload (count payload content.size)) :=
      (List.perm_ext_iff_of_nodup (horder.imp fun h heq => by simp [heq] at h)
        (horder'.imp fun h heq => by simp [heq] at h)).mpr hmem
    exact hperm.eq_of_pairwise (fun a b _ _ hab hba => absurd hab (by omega)) horder horder'
  rw [hsame, assemble_descending]
  -- The last slice ends with the content.
  have hall : content.extract 0 (count payload content.size * payload)
      = content.extract 0 content.size := by
    apply ByteArray.ext_getElem
    · have hend : content.size ≤ count payload content.size * payload := length_le_mul hpayload
      simp only [ByteArray.size_extract]
      omega
    · intro i hleft hright
      rw [ByteArray.getElem_extract, ByteArray.getElem_extract]
  rw [hall, ByteArray.extract_zero_size]

end Chunking

end LayerCast
