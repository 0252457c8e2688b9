import LayerCast.Proofs.Transfer.Diary
import LayerCast.Proofs.Transfer.TableHistory

/-!
# `LayerCast.Proofs.Transfer.Fates`: what becomes of every interest

An interest is out until its chunk arrives, its request turns out to be in vain, its chunk falls off
the end of the table, or the transfer is given up. The tally has columns for the interests, for the
setbacks and for the data. How the data came, and what became of the rest, it does not tell.

`Fates` are the columns that are missing. They are not kept by the fetcher. `noteFates` compares the
chunk table before and after each call (`ChunkTable.turned`), whatever the call was. `Fates.AddUp`
says that the columns of the tally and the missing ones add up, and there is one lemma for each
operation of a table by which a deed changes it. `interests_accounted` is what follows for a whole
life: every interest is counted in exactly one column, so that no transfer has accepted more chunks
than it has sent interests.
-/

set_option autoImplicit false

namespace LayerCast

namespace ChunkTable

variable {t u : ChunkTable} {chunk i n : Nat} {s old : ChunkStatus} {new : Option ChunkStatus}

/-! ### Chunks that turn -/

/-- The chunks that have a status. -/
def withStatus (t : ChunkTable) (s : ChunkStatus) : Finset Nat :=
  (Finset.range t.size).filter fun i => t.status? i = some s

/-- The chunks that have one status in a table and another one in the next table, or none if they
have fallen off its end. -/
def turned (t u : ChunkTable) (old : ChunkStatus) (new : Option ChunkStatus) : Finset Nat :=
  (t.withStatus old).filter fun i => u.status? i = new

/-- A chunk is among those with a status exactly if it has that status. -/
theorem mem_withStatus : i ∈ t.withStatus s ↔ t.status? i = some s := by
  rw [withStatus, Finset.mem_filter, Finset.mem_range]
  exact and_iff_right_of_imp lt_size_of_status?

/-- A chunk has turned exactly if it had the old status and has the new one. -/
theorem mem_turned : i ∈ t.turned u old new ↔ t.status? i = some old ∧ u.status? i = new := by
  rw [turned, Finset.mem_filter, mem_withStatus]

/-- Where one chunk changes, no other one turns. -/
theorem turned_of_only (honly : ∀ i, i ≠ chunk → u.status? i = t.status? i)
    (hnew : new ≠ some old) :
    t.turned u old new =
      if t.status? chunk = some old ∧ u.status? chunk = new then {chunk} else ∅ := by
  ext i
  rw [mem_turned]
  by_cases hi : i = chunk
  · subst hi
    split <;> simp_all
  · have hkept : ¬(t.status? i = some old ∧ u.status? i = new) := by
      rintro ⟨hold, hturned⟩
      exact hnew (hturned.symm.trans ((honly i hi).trans hold))
    split <;> simp [hi, hkept]

/-- Nothing falls off the end of a table that keeps its size. -/
theorem turned_none_of_size (hsize : u.size = t.size) : t.turned u old none = ∅ := by
  refine Finset.eq_empty_of_forall_notMem fun i hi => ?_
  obtain ⟨hold, hnone⟩ := mem_turned.mp hi
  obtain ⟨s, hs⟩ := exists_status? (hsize ▸ lt_size_of_status? hold : i < u.size)
  cases hnone.symm.trans hs

/-- A chunk turns into the same when the table is resized behind all that has changed. -/
theorem turned_resize (hsize : u.size = t.size) (hsame : ∀ i, n ≤ i → u.status? i = t.status? i)
    (hne : s ≠ old) : t.turned (u.resize n).2 old (some s) = t.turned u old (some s) := by
  ext i
  rw [mem_turned, mem_turned, status?_resize]
  refine and_congr_right fun hold => ?_
  by_cases hi : i < n
  · have hinside : i < u.size := hsize ▸ lt_size_of_status? hold
    obtain ⟨s', hs'⟩ := exists_status? hinside
    simp [hi, hs']
  · have hkept : u.status? i = some old := (hsame i (Nat.le_of_not_lt hi)).trans hold
    simp [hi, hkept, hne.symm]

/-- No chunk falls off the end of a table twice. -/
theorem card_requestedFrom (t : ChunkTable) (n : Nat) :
    (t.requestedFrom n).toFinset.card = (t.requestedFrom n).length :=
  List.toFinset_card_of_nodup (List.nodup_range.filter _)

/-- What falls off the end is what the resized table returns. -/
theorem card_turned_none (hsame : ∀ i, n ≤ i → u.status? i = t.status? i) :
    (t.turned (u.resize n).2 .requested none).card = (u.requestedFrom n).length := by
  rw [← card_requestedFrom]
  congr 1
  ext i
  rw [mem_turned, status?_resize, List.mem_toFinset, mem_requestedFrom]
  by_cases hi : i < n
  · simp [hi]
  · have hbehind : n ≤ i := Nat.le_of_not_lt hi
    simp [hi, hbehind, hsame i hbehind]

/-- The requested chunks are as many as requests are out. -/
theorem Counted.card_withStatus (h : t.Counted) : (t.withStatus .requested).card = t.inFlight := by
  have hset : t.withStatus .requested = (t.requestedFrom 0).toFinset := by
    ext i
    rw [mem_withStatus, List.mem_toFinset, mem_requestedFrom]
    exact (and_iff_right (Nat.zero_le i)).symm
  rw [hset, card_requestedFrom, length_requestedFrom, List.drop_zero, Array.count_toList, h]

/-! ### Chunks that have timed out -/

/-- A request ends no timeout but that of its chunk. -/
theorem withStatus_request? (hu : t.request? chunk = some u) :
    u.withStatus .timedOut ⊆ t.withStatus .timedOut := by
  intro i hi
  rw [mem_withStatus, status?_request? hu] at hi
  split at hi
  · cases hi
  · exact mem_withStatus.mpr hi

/-- A timeout adds its chunk to those that have timed out. -/
theorem withStatus_timeOut? (hu : t.timeOut? chunk = some u) :
    u.withStatus .timedOut = insert chunk (t.withStatus .timedOut) := by
  ext i
  rw [mem_withStatus, status?_timeOut? hu, Finset.mem_insert, mem_withStatus]
  by_cases hi : i = chunk <;> simp [hi]

/-- An arrival takes its chunk from those that have timed out. -/
theorem withStatus_receive {b : Bool} (hnew : (t.receive chunk).1 = .new b) :
    (t.receive chunk).2.withStatus .timedOut = (t.withStatus .timedOut).erase chunk := by
  ext i
  rw [mem_withStatus, status?_receive hnew, Finset.mem_erase, mem_withStatus]
  by_cases hi : i = chunk <;> simp [hi]

/-- A new size brings no chunk that has timed out. -/
theorem withStatus_resize : (t.resize n).2.withStatus .timedOut ⊆ t.withStatus .timedOut := by
  intro i hi
  rw [mem_withStatus, status?_resize] at hi
  rw [mem_withStatus]
  split at hi
  · cases hs : t.status? i with
    | none => simp [hs] at hi
    | some s => simpa [hs] using hi
  · cases hi

/-- Nothing is left waiting for another request. -/
theorem withStatus_abort : t.abort.withStatus .timedOut = ∅ := by
  refine Finset.eq_empty_of_forall_notMem fun i hi => ?_
  rw [mem_withStatus, status?_abort] at hi
  cases hs : t.status? i with
  | none => simp [hs] at hi
  | some s => cases s <;> simp [hs] at hi

/-- What was requested and not received is given up with the transfer. -/
theorem turned_abort : t.turned t.abort .requested (some .aborted) = t.withStatus .requested := by
  refine Finset.filter_true_of_mem fun i hi => ?_
  rw [status?_abort, mem_withStatus.mp hi]
  rfl

/-- Giving up makes nothing arrive. -/
theorem turned_abort_received (hold : old ≠ .received) :
    t.turned t.abort old (some .received) = ∅ := by
  refine Finset.filter_false_of_mem fun i hi => ?_
  rw [status?_abort, mem_withStatus.mp hi]
  simp [hold]

/-- Giving up takes no chunk out of the table. -/
theorem turned_abort_none : t.turned t.abort old none = ∅ := by
  refine Finset.filter_false_of_mem fun i hi => ?_
  rw [status?_abort, mem_withStatus.mp hi]
  simp

/-- Nothing in a fresh table was requested. -/
theorem turned_ofSize (hold : old ≠ .untouched) : (ofSize n).turned u old new = ∅ := by
  refine Finset.eq_empty_of_forall_notMem fun i hi => ?_
  exact hold (status?_ofSize (mem_turned.mp hi).1)

end ChunkTable

/-! ### Fates -/

/-- What has become of interests, and which of the data was late. -/
structure Fates where
  /-- The chunks that were accepted while their request was out. -/
  answered : Nat := 0
  /-- The chunks that were accepted after their request had been in vain. -/
  late : Nat := 0
  /-- The chunks that fell off the end of the table while their request was out. -/
  dropped : Nat := 0
  /-- The chunks that were given up with the transfer while their request was out. -/
  abandoned : Nat := 0
  deriving DecidableEq, Repr

namespace Fates

variable {fates : Fates} {t u : ChunkTable} {tally : Tally} {chunk n : Nat}

/-- Counts the chunks that have turned between one table and the next. -/
def turn (fates : Fates) (t u : ChunkTable) : Fates :=
  { answered := fates.answered + (t.turned u .requested (some .received)).card
    late := fates.late + (t.turned u .timedOut (some .received)).card
    dropped := fates.dropped + (t.turned u .requested none).card
    abandoned := fates.abandoned + (t.turned u .requested (some .aborted)).card }

/-- Where one chunk changes, its status before and after tells the column. -/
theorem turn_of_only (chunk : Nat) (honly : ∀ i, i ≠ chunk → u.status? i = t.status? i) :
    fates.turn t u =
      { answered := fates.answered +
          if t.status? chunk = some .requested ∧ u.status? chunk = some .received then 1 else 0
        late := fates.late +
          if t.status? chunk = some .timedOut ∧ u.status? chunk = some .received then 1 else 0
        dropped := fates.dropped +
          if t.status? chunk = some .requested ∧ u.status? chunk = none then 1 else 0
        abandoned := fates.abandoned +
          if t.status? chunk = some .requested ∧ u.status? chunk = some .aborted then 1
          else 0 } := by
  simp [turn, ChunkTable.turned_of_only honly, apply_ite Finset.card]

/-- A table that stays decides nothing. -/
theorem turn_self (fates : Fates) (t : ChunkTable) : fates.turn t t = fates := by
  rw [turn_of_only 0 fun _ _ => rfl]
  cases t.status? 0 with
  | none => simp
  | some s => cases s <;> simp

/-- A request decides nothing: its fate is still open. -/
theorem turn_request? (hu : t.request? chunk = some u) : fates.turn t u = fates := by
  have hout : u.status? chunk = some .requested := by
    rw [ChunkTable.status?_request? hu, if_pos rfl]
  rw [turn_of_only chunk fun i hi => by rw [ChunkTable.status?_request? hu, if_neg hi], hout]
  simp

/-- A timeout decides nothing either, since the data can still come late. -/
theorem turn_timeOut? (hu : t.timeOut? chunk = some u) : fates.turn t u = fates := by
  have hin : u.status? chunk = some .timedOut := by
    rw [ChunkTable.status?_timeOut? hu, if_pos rfl]
  rw [turn_of_only chunk fun i hi => by rw [ChunkTable.status?_timeOut? hu, if_neg hi], hin]
  simp

/-- A chunk that arrives is in time or late. -/
theorem turn_receive {new : Bool} (hnew : (t.receive chunk).1 = .new new) :
    fates.turn t (t.receive chunk).2 =
      if t.status? chunk = some .requested then { fates with answered := fates.answered + 1 }
      else { fates with late := fates.late + 1 } := by
  have hin : (t.receive chunk).2.status? chunk = some .received := by
    rw [ChunkTable.status?_receive hnew, if_pos rfl]
  rw [turn_of_only chunk fun i hi => by rw [ChunkTable.status?_receive hnew, if_neg hi], hin]
  rcases ChunkTable.new_iff.mp ⟨new, hnew⟩ with hs | hs <;> simp [hs]

/-- When the table is resized behind all that has changed, what falls off its end is dropped. -/
theorem turn_resize (hsize : u.size = t.size) (hsame : ∀ i, n ≤ i → u.status? i = t.status? i) :
    fates.turn t (u.resize n).2 =
      { fates.turn t u with
        dropped := (fates.turn t u).dropped + (u.requestedFrom n).length } := by
  unfold turn
  rw [ChunkTable.turned_resize hsize hsame (by decide),
    ChunkTable.turned_resize hsize hsame (by decide),
    ChunkTable.turned_resize hsize hsame (by decide), ChunkTable.card_turned_none hsame,
    ChunkTable.turned_none_of_size hsize, Finset.card_empty, Nat.add_zero]

/-- Giving up a transfer gives up the requests that are out. -/
theorem turn_abort (h : t.Counted) :
    fates.turn t t.abort = { fates with abandoned := fates.abandoned + t.inFlight } := by
  simp [turn, ChunkTable.turned_abort, ChunkTable.turned_abort_received,
    ChunkTable.turned_abort_none, h.card_withStatus]

/-- A transfer starts without fates. -/
theorem turn_ofSize (fates : Fates) (n : Nat) (u : ChunkTable) :
    fates.turn (.ofSize n) u = fates := by
  simp [turn, ChunkTable.turned_ofSize]

/-- As long as no chunk is given up, nothing is abandoned. -/
theorem abandoned_turn (halive : ∀ i, u.status? i ≠ some .aborted) :
    (fates.turn t u).abandoned = fates.abandoned := by
  have hnone : t.turned u .requested (some .aborted) = ∅ :=
    Finset.filter_false_of_mem fun i _ => halive i
  rw [turn, hnone, Finset.card_empty, Nat.add_zero]

/-- Counts what has turned from one transfer to the next, if there are both. -/
def pass (fates : Fates) : Option Transfer → Option Transfer → Fates
  | some t, some u => fates.turn t.chunks u.chunks
  | _, _ => fates

/-- A transfer that stays decides nothing. -/
theorem pass_self (fates : Fates) (t? : Option Transfer) : fates.pass t? t? = fates := by
  cases t? with
  | none => rfl
  | some t => exact turn_self fates t.chunks

/-! ### The columns add up -/

/-- The interests, the data and the setbacks of a tally fit what has become of the chunks. -/
structure AddUp (fates : Fates) (t : ChunkTable) (tally : Tally) : Prop where
  counted : t.Counted
  interests : tally.interests = t.inFlight + tally.timeouts + tally.nacks + fates.answered +
    fates.dropped + fates.abandoned
  data : tally.data = fates.answered + fates.late
  /-- What came late had timed out, and so had what is still to be requested again. -/
  late : fates.late + (t.withStatus .timedOut).card ≤ tally.timeouts + tally.nacks

/-- Before the first request there is nothing to add up. -/
theorem addUp_ofSize (n : Nat) : AddUp {} (.ofSize n) {} where
  counted := ChunkTable.counted_ofSize n
  interests := rfl
  data := rfl
  late := by
    have hnone : (ChunkTable.ofSize n).withStatus .timedOut = ∅ := by
      refine Finset.eq_empty_of_forall_notMem fun i hi => ?_
      cases ChunkTable.status?_ofSize (ChunkTable.mem_withStatus.mp hi)
    rw [hnone]
    rfl

/-- What is not accepted is not counted but in the column of duplicates. -/
theorem AddUp.duplicate (h : fates.AddUp t tally) (duplicates : Nat) :
    fates.AddUp t { tally with duplicates } :=
  ⟨h.counted, h.interests, h.data, h.late⟩

/-- A request is one interest more, and it is out. -/
theorem AddUp.request? (h : fates.AddUp t tally) (hu : t.request? chunk = some u) :
    (fates.turn t u).AddUp u { tally with interests := tally.interests + 1 } := by
  have hinterests := h.interests
  have hlate := h.late
  have hout := ChunkTable.inFlight_request? hu
  have hfewer := Finset.card_le_card (ChunkTable.withStatus_request? hu)
  rw [turn_request? hu]
  refine ⟨h.counted.request? hu, ?_, h.data, ?_⟩
  · dsimp only
    omega
  · dsimp only
    omega

/-- A setback takes a request that is out into the column of timeouts or of refusals. -/
theorem AddUp.timeOut? (h : fates.AddUp t tally) (hu : t.timeOut? chunk = some u) {tally' : Tally}
    (htally : tally' = { tally with timeouts := tally.timeouts + 1 } ∨
      tally' = { tally with nacks := tally.nacks + 1 }) :
    (fates.turn t u).AddUp u tally' := by
  have hinterests := h.interests
  have hlate := h.late
  have hin := h.counted.subtracts.timeOut chunk u hu
  have hmore : (u.withStatus .timedOut).card ≤ (t.withStatus .timedOut).card + 1 := by
    rw [ChunkTable.withStatus_timeOut? hu]
    exact Finset.card_insert_le _ _
  have hsetbacks : tally'.interests = tally.interests ∧ tally'.data = tally.data ∧
      tally'.timeouts + tally'.nacks = tally.timeouts + tally.nacks + 1 := by
    rcases htally with rfl | rfl
    · exact ⟨rfl, rfl, Nat.add_right_comm _ _ _⟩
    · exact ⟨rfl, rfl, rfl⟩
  rw [turn_timeOut? hu]
  exact ⟨h.counted.timeOut? hu, by omega, hsetbacks.2.1.trans h.data, by omega⟩

/-- A chunk that arrives in time takes its request from those that are out. One that is late was
among the chunks that have timed out. -/
theorem AddUp.receive (h : fates.AddUp t tally) {new : Bool}
    (hnew : (t.receive chunk).1 = .new new) :
    (fates.turn t (t.receive chunk).2).AddUp (t.receive chunk).2
      { tally with data := tally.data + 1 } := by
  have hinterests := h.interests
  have hdata := h.data
  have hlate := h.late
  have herased := congrArg Finset.card (ChunkTable.withStatus_receive hnew)
  rw [turn_receive hnew]
  -- Data in time takes its request from those that are out, late data its chunk from those in vain.
  rcases ChunkTable.new_iff.mp ⟨new, hnew⟩ with hs | hs
  · have hin := h.counted.subtracts.receive chunk (ChunkTable.receive_of_requested hs)
    have hfewer : ((t.withStatus .timedOut).erase chunk).card ≤ (t.withStatus .timedOut).card :=
      Finset.card_erase_le
    rw [if_pos hs]
    refine ⟨h.counted.receive chunk, ?_, ?_, ?_⟩
    · dsimp only
      omega
    · dsimp only
      omega
    · dsimp only
      omega
  · have hone : ((t.withStatus .timedOut).erase chunk).card + 1 = (t.withStatus .timedOut).card :=
      Finset.card_erase_add_one (ChunkTable.mem_withStatus.mpr hs)
    rw [if_neg (by simp [hs])]
    refine ⟨h.counted.receive chunk, ?_, ?_, ?_⟩
    · rw [ChunkTable.inFlight_receive_of_timedOut hs]
      exact hinterests
    · dsimp only
      omega
    · dsimp only
      omega

/-- Requests that fall off the end of the table are dropped. -/
theorem AddUp.resize (h : fates.AddUp t tally) (n : Nat) :
    AddUp { fates with dropped := fates.dropped + (t.requestedFrom n).length } (t.resize n).2
      tally := by
  have hinterests := h.interests
  have hlate := h.late
  have hin : (t.resize n).2.inFlight + (t.requestedFrom n).length = t.inFlight :=
    h.counted.subtracts.resize n
  have hfewer := Finset.card_le_card (ChunkTable.withStatus_resize (t := t) (n := n))
  refine ⟨h.counted.resize n, ?_, h.data, ?_⟩
  · dsimp only
    omega
  · dsimp only
    omega

/-- When chunk 0 has arrived, the table gets its true size, which has a place for chunk 0. -/
theorem AddUp.length (h : fates.AddUp t tally) {new : Bool} (hnew : (t.receive 0).1 = .new new)
    (n : Nat) :
    (fates.turn t ((t.receive 0).2.resize (n + 1)).2).AddUp ((t.receive 0).2.resize (n + 1)).2
      { tally with data := tally.data + 1 } := by
  rw [turn_resize (ChunkTable.size_receive t 0)]
  · exact (h.receive hnew).resize (n + 1)
  · intro i hi
    have hbehind : i ≠ 0 := by omega
    rw [ChunkTable.status?_receive hnew, if_neg hbehind]

/-- Requests that are out when the transfer is given up are abandoned. -/
theorem AddUp.abort (h : fates.AddUp t tally) : (fates.turn t t.abort).AddUp t.abort tally := by
  have hinterests := h.interests
  have hlate := h.late
  have hin : t.abort.inFlight = 0 := rfl
  rw [turn_abort h.counted]
  refine ⟨ChunkTable.Counted.abort t, ?_, h.data, ?_⟩
  · dsimp only
    omega
  · rw [ChunkTable.withStatus_abort, Finset.card_empty]
    dsimp only
    omega

/-- No more chunks are accepted than interests are sent. -/
theorem AddUp.data_le (h : fates.AddUp t tally) : tally.data ≤ tally.interests := by
  have hinterests := h.interests
  have hdata := h.data
  have hlate := h.late
  omega

end Fates

namespace Fetcher

variable {fates : Fates} {f g : Fetcher} {s s' mid : Scene} {t u : Transfer} {call : Call}
  {gain : Option (Nat × ByteArray)} {settings : FetchSettings}

/-! ### A whole life -/

/-- The fates of the last transfer after a call that has led from one fetcher to another. -/
def noteFates (fates : Fates) (f : Fetcher) (call : Call) (g : Fetcher) : Fates :=
  match call with
  | .start _ _ => if f.isBusy then fates else {}
  | .reset => {}
  | _ => fates.pass f.transfer g.transfer

/-- The tally of the last transfer adds up, and so did the one that can be taken. -/
structure Settles (fates : Fates) (f : Fetcher) : Prop where
  addUp : ∀ t, f.transfer = some t → fates.AddUp t.chunks t.tally
  running : f.phase = .downloading → fates.abandoned = 0
  delivered : ∀ x, f.completed = some x → x.tally.data ≤ x.tally.interests

/-- The chunks that a deed turns are counted in the columns of the tally in which they belong. -/
theorem Deed.addUp (h : fates.AddUp t.chunks t.tally) (hdeed : Deed s t gain mid)
    (ht : s.transfer = some t) :
    ∃ u, mid.transfer = some u ∧ (fates.turn t.chunks u.chunks).AddUp u.chunks u.tally := by
  cases hdeed with
  | nothing =>
      refine ⟨t, ht, ?_⟩
      rw [Fates.turn_self]
      exact h
  | duplicate =>
      refine ⟨_, rfl, ?_⟩
      rw [Fates.turn_self]
      exact h.duplicate _
  | setback hchunks htally => exact ⟨_, rfl, h.timeOut? hchunks htally⟩
  | part _ hnew => exact ⟨_, rfl, h.receive hnew⟩
  | length _ hnew => exact ⟨_, rfl, h.length hnew _⟩
  | request _ _ _ hchunks => exact ⟨_, rfl, h.request? hchunks⟩
  | reject => exact ⟨_, rfl, h.abort⟩

/-- What can be taken after a sequel could be taken before, or has the tally of the transfer. -/
theorem Sequel.of_completed {x : Delivery} (h : Sequel s s') (hx : s'.completed = some x) :
    s.completed = some x ∨ ∃ t, s.transfer = some t ∧ x.tally = t.tally := by
  cases h with
  | same => exact .inl hx
  | drained => exact .inl hx
  | finished _ ht _ _ _ htally =>
      obtain rfl := Option.some.inj hx
      exact .inr ⟨_, ht, htally⟩

/-- A deed with its sequel settles what it has turned. -/
theorem Settles.comes (h : Settles fates f) (horder : g.InOrder settings)
    (hphase : f.phase = .downloading) (ht : f.transfer = some t) (hcomes : f.Comes t gain g) :
    ∃ u, g.transfer = some u ∧ Settles (fates.turn t.chunks u.chunks) g := by
  obtain ⟨mid, hdeed, hsequel⟩ := hcomes
  obtain ⟨u, hu, hadds⟩ := hdeed.addUp (h.addUp t ht) ht
  obtain ⟨drained, hg⟩ := hsequel.keeps.2.2.2.2 u hu
  refine ⟨{ u with drained }, hg, ⟨fun v hv => ?_, fun hrunning => ?_, fun x hx => ?_⟩⟩
  · obtain rfl := Option.some.inj (hg.symm.trans hv)
    exact hadds
  · -- A table with chunks that were given up is not that of a running transfer.
    obtain ⟨v, hclocked, -⟩ := horder.of_busy hrunning
    obtain rfl := Option.some.inj (hg.symm.trans hclocked.transfer)
    exact (Fates.abandoned_turn hclocked.alive).trans (h.running hphase)
  · obtain ⟨-, -, -, -, -, hcompleted, -⟩ := hdeed.open_or_rejected ht
    rcases hsequel.of_completed hx with hbefore | ⟨v, hv, htally⟩
    · exact h.delivered x (hcompleted.symm.trans hbefore)
    · obtain rfl := Option.some.inj (hu.symm.trans hv)
      rw [htally]
      exact hadds.data_le

/-- A transfer starts with one interest that is out, or with none. -/
theorem settles_begin (horder : f.InOrder settings) (now : Nat) (segment : Segment)
    (horder' : (f.begin now segment).InOrder settings) : Settles {} (f.begin now segment) := by
  have hopened : Settles {} (f.opened now segment) := by
    refine ⟨fun t ht => ?_, fun _ => rfl, fun x hx => nomatch hx⟩
    obtain rfl : f.untouched now segment = t := Option.some.inj ht
    exact Fates.addUp_ofSize _
  obtain ⟨u, -, hsettles⟩ := hopened.comes horder' rfl rfl
    (comes_of_deed (begin_deed horder.equipped now segment))
  rwa [untouched, Fates.turn_ofSize] at hsettles

/-- Where the transfer stays as it is, nothing turns. -/
theorem Settles.keep (h : Settles fates f) (htransfer : g.transfer = f.transfer)
    (hphase : g.phase = f.phase)
    (hcompleted : ∀ x, g.completed = some x → f.completed = some x) :
    Settles (fates.pass f.transfer g.transfer) g := by
  rw [htransfer, Fates.pass_self]
  refine ⟨fun t ht => ?_, fun hrunning => ?_, fun x hx => h.delivered x (hcompleted x hx)⟩
  · exact h.addUp t (htransfer.symm.trans ht)
  · exact h.running (hphase.symm.trans hrunning)

/-- Giving up settles the requests that are out. -/
theorem Settles.abort (h : Settles fates f) :
    Settles (fates.pass f.transfer f.abort.transfer) f.abort := by
  refine ⟨fun u hu => ?_, fun hrunning => ?_, h.delivered⟩
  · obtain ⟨t, ht, rfl⟩ := Option.map_eq_some_iff.mp hu
    have hpass : fates.pass f.transfer f.abort.transfer = fates.turn t.chunks t.chunks.abort := by
      show fates.pass f.transfer (f.transfer.map _) = _
      rw [ht]
      rfl
    rw [hpass]
    exact (h.addUp t ht).abort
  · exact absurd hrunning f.phase_abort_ne

/-- **One call** settles what it has turned. -/
theorem Settles.perform (h : Settles fates f) (horder : f.InOrder settings)
    (horder' : g.InOrder settings) (hg : f.perform call = .ok g) :
    Settles (noteFates fates f call g) g := by
  cases call with
  | start now segment =>
      rcases start_cases hg with ⟨hbusy, rfl⟩ | ⟨hidle, rfl⟩
      · rw [noteFates, if_pos hbusy]
        exact h
      · rw [noteFates, if_neg (by simp [hidle])]
        exact settles_begin horder now segment horder'
  | wake now w =>
      -- A wake for a fetcher that is free changes nothing.
      rcases wake_cases horder hg with ⟨-, rfl⟩ | ⟨-, hphase, ⟨t, ht⟩, hhandled⟩
      · exact h.keep rfl rfl fun _ hx => hx
      · obtain ⟨u, hu, hsettles⟩ := h.comes horder' hphase ht (handle_comes hphase ht hhandled)
        show Settles (fates.pass f.transfer g.transfer) g
        rw [ht, hu]
        exact hsettles
  | abort =>
      obtain rfl := Except.ok.inj hg
      exact h.abort
  | reset =>
      obtain rfl := Except.ok.inj hg
      exact ⟨fun _ ht => (nomatch ht), fun _ => rfl, fun _ hx => nomatch hx⟩
  | _ =>
      obtain ⟨hphase, htransfer, -, hcompleted⟩ := perform_errand hg trivial
      exact h.keep htransfer hphase hcompleted

/-- **A life** settles what its last transfer has turned. -/
theorem watch_settles {id : Nat} (hnew : ofSettings id settings = .ok f) {calls : List Call}
    (hg : f.watch noteFates {} calls = .ok (fates, g)) : Settles fates g := by
  have hscene := scene_ofSettings hnew
  have hstart : Settles {} f := by
    have hnone : f.transfer = none := congrArg Scene.transfer hscene
    have hnothing : f.completed = none := congrArg Scene.completed hscene
    exact ⟨fun t ht => by simp [hnone] at ht, fun _ => rfl, fun x hx => by simp [hnothing] at hx⟩
  exact watch_preserves Settles (fun _ => True)
    (fun _ _ _ _ horder horder' _ hcall h => h.perform horder horder' hcall)
    (fun _ _ => trivial) (inOrder_ofSettings hnew) hstart hg

/-- **Every interest is counted once.** Take a new fetcher and any calls on it, which do not fail if
they are `Workable`. Each interest of the transfer that was started last is out, or was in vain,
or its chunk was accepted, dropped or abandoned in the meantime, and as long as the transfer runs
none was abandoned. Data was accepted in time or late, and late data only after a request in vain.
So no more chunks were accepted than interests were sent, also for what is delivered, and the
difference that counts as retransmissions is never cut off at zero. -/
theorem interests_accounted {id : Nat} (hnew : ofSettings id settings = .ok f)
    (calls : List Call) :
    (Workable settings calls → ∃ fates g, f.watch noteFates {} calls = .ok (fates, g)) ∧
      ∀ fates g t, f.watch noteFates {} calls = .ok (fates, g) → g.transfer = some t →
        t.tally.interests = t.chunks.inFlight + t.tally.timeouts + t.tally.nacks +
          fates.answered + fates.dropped + fates.abandoned ∧
        (g.phase = .downloading → fates.abandoned = 0) ∧
        t.tally.data = fates.answered + fates.late ∧
        fates.late ≤ t.tally.timeouts + t.tally.nacks ∧
        t.tally.data ≤ t.tally.interests ∧
        t.tally.retransmissions + t.tally.data = t.tally.interests ∧
        ∀ x, g.completed = some x →
          x.tally.retransmissions + x.tally.data = x.tally.interests := by
  refine ⟨fun h => ?_, fun fates g t hg ht => ?_⟩
  · obtain ⟨g, hg, -⟩ := h.performAll_ok hnew
    obtain ⟨fates, hfates⟩ := (performAll_eq_ok_iff_watch calls ({} : Fates)).mp hg
    exact ⟨fates, g, hfates⟩
  · have hsettles := watch_settles hnew hg
    have hadds := hsettles.addUp t ht
    have hlate := hadds.late
    exact ⟨hadds.interests, hsettles.running, hadds.data, by omega, hadds.data_le,
      Nat.sub_add_cancel hadds.data_le, fun x hx => Nat.sub_add_cancel (hsettles.delivered x hx)⟩

/-- Four chunks are requested. Chunk 2 is refused, chunk 0 is too short and requested again, and
chunk 1 times out and arrives late. Then chunk 0 tells that there are three chunks, and chunk 2 is
requested again. -/
def fatefulCalls : List Call :=
  [.start 0 sampleSegment, .wake 1 .tick, .wake 2 .tick, .wake 3 .tick,
    .wake 10 (.reply ⟨⟨sampleSegment.name, 2⟩, .nack .congestion⟩), dataCall 20 0 ⟨#[0]⟩,
    .wake 30 .tick, .wake 600 (.timer 1), dataCall 610 1 ⟨#[7, 7]⟩,
    dataCall 620 0 ⟨#[0, 0, 0, 4]⟩, .wake 630 .tick]

/-- Of six interests one is out, three were in vain, one was answered and one was dropped. -/
theorem interests_accounted_sample :
    Workable lifeSettings fatefulCalls ∧ ∃ f fates g t, ofSettings 0 lifeSettings = .ok f ∧
      f.watch noteFates {} fatefulCalls = .ok (fates, g) ∧ g.transfer = some t ∧
      g.phase = .downloading ∧ t.chunks.inFlight = 1 ∧ t.tally.timeouts = 2 ∧ t.tally.nacks = 1 ∧
      fates = { answered := 1, late := 1, dropped := 1, abandoned := 0 } ∧
      t.tally.interests = 6 ∧ t.tally.data = 2 ∧ t.tally.retransmissions = 4 := by
  have hworkable : Workable lifeSettings fatefulCalls := workable_life (by decide)
  have hvalue : ((ofSettings 0 lifeSettings).toOption.bind fun f =>
      (f.watch noteFates {} fatefulCalls).toOption.bind fun r => r.2.transfer.map fun t =>
        (r.1, r.2.phase, t.chunks.inFlight, t.tally.timeouts, t.tally.nacks)) =
      some (⟨1, 1, 1, 0⟩, .downloading, 1, 2, 1) := by decide +kernel
  obtain ⟨f, hnew, hvalue⟩ := Checked.exists_of_bind_toOption hvalue
  obtain ⟨hsucceeds, haccounted⟩ := interests_accounted hnew fatefulCalls
  obtain ⟨fates, g, hg⟩ := hsucceeds hworkable
  rw [hg] at hvalue
  obtain ⟨t, ht, hvalues⟩ := Option.map_eq_some_iff.mp hvalue
  simp only [Prod.mk.injEq] at hvalues
  obtain ⟨rfl, hphase, hout, htimeouts, hnacks⟩ := hvalues
  obtain ⟨hinterests, -, hdata, -, -, hretransmissions, -⟩ := haccounted _ g t hg ht
  rw [hout, htimeouts, hnacks] at hinterests
  have hsix : t.tally.interests = 6 := hinterests
  have htwo : t.tally.data = 2 := hdata
  exact ⟨hworkable, f, _, g, t, hnew, hg, ht, hphase, hout, htimeouts, hnacks, rfl, hsix, htwo,
    by omega⟩

end Fetcher

end LayerCast
