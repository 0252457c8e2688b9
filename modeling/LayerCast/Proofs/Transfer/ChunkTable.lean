import LayerCast.Transfer.ChunkTable

/-!
# `LayerCast.Proofs.Transfer.ChunkTable`: what the operations do to each chunk

Every operation of a chunk table is described by the status that each chunk has afterwards. The
proofs about transfers look at a table only through these equations:

* `status?_request?`, `status?_timeOut?` and `status?_receive`: one chunk changes, and only from
  a status from which it may.
* `status?_resize`: the chunks inside both tables stay, and new ones are untouched.
* `status?_abort`: what has arrived stays, and all else is given up.

From them follow the equations for `hasReceived`, the one thing about a chunk that the bytes of a
transfer depend on. A table also counts its requests that are out, and every operation keeps that
number right (`Counted`).
-/

set_option autoImplicit false

namespace LayerCast.ChunkTable

/-! ### The status of each chunk -/

/-- A request is accepted for a chunk that has to be requested. -/
theorem needed_of_request? {t u : ChunkTable} {chunk : Nat} (h : t.request? chunk = some u) :
    t.status? chunk = some .untouched ∨ t.status? chunk = some .timedOut := by
  unfold request? at h
  split at h <;> simp_all

/-- A request changes the status of its chunk. -/
theorem status?_request? {t u : ChunkTable} {chunk : Nat} (h : t.request? chunk = some u)
    (i : Nat) :
    u.status? i = if i = chunk then some .requested else t.status? i := by
  -- The chunk lies inside the table, so that its new status is written.
  have hlt : chunk < t.status.size := by
    rcases needed_of_request? h with hs | hs <;>
      exact (Array.getElem?_eq_some_iff.mp hs).1
  unfold request? at h
  split at h <;> cases h <;>
    simp [status?, Array.getElem?_setIfInBounds, hlt, eq_comm]

/-- A request in vain was out. -/
theorem requested_of_timeOut? {t u : ChunkTable} {chunk : Nat} (h : t.timeOut? chunk = some u) :
    t.status? chunk = some .requested := by
  unfold timeOut? at h
  split at h
  · assumption
  · cases h

/-- A timeout changes the status of its chunk. -/
theorem status?_timeOut? {t u : ChunkTable} {chunk : Nat} (h : t.timeOut? chunk = some u)
    (i : Nat) :
    u.status? i = if i = chunk then some .timedOut else t.status? i := by
  have hlt : chunk < t.status.size :=
    (Array.getElem?_eq_some_iff.mp (requested_of_timeOut? h)).1
  unfold timeOut? at h
  split at h <;> cases h
  simp [status?, Array.getElem?_setIfInBounds, hlt, eq_comm]

/-- Data is new for a chunk that was requested, with the request still out or in vain. -/
theorem new_iff {t : ChunkTable} {chunk : Nat} :
    (∃ b, (t.receive chunk).1 = .new b) ↔
      t.status? chunk = some .requested ∨ t.status? chunk = some .timedOut := by
  unfold receive
  split <;> simp_all

/-- New data changes the status of its chunk. -/
theorem status?_receive {t : ChunkTable} {chunk : Nat} {b : Bool}
    (h : (t.receive chunk).1 = .new b) (i : Nat) :
    (t.receive chunk).2.status? i = if i = chunk then some .received else t.status? i := by
  have hlt : chunk < t.status.size := by
    rcases new_iff.mp ⟨b, h⟩ with hs | hs <;>
      exact (Array.getElem?_eq_some_iff.mp hs).1
  -- What `receive` answers and the table that it leaves depend on the same status.
  revert h
  unfold receive
  split <;> intro h <;> simp at h <;>
    simp [status?, Array.getElem?_setIfInBounds, hlt, eq_comm]

/-- An array that is cut or filled up to a size. -/
theorem getElem?_take_append_replicate {α : Type} (xs : Array α) (n : Nat) (fill : α) (i : Nat) :
    (xs.take n ++ Array.replicate (n - xs.size) fill)[i]? =
      if i < n then some (xs[i]?.getD fill) else none := by
  simp only [Array.take_eq_extract, Array.getElem?_append, Array.size_extract,
    Array.getElem?_extract, Array.getElem?_replicate, Nat.zero_add, Nat.sub_zero]
  by_cases hi : i < n
  · by_cases hs : i < xs.size
    · -- The entry lies inside both arrays.
      have hold : i < min n xs.size := by omega
      simp [hi, hs, hold]
    · -- The entry is one of the new ones.
      have hold : ¬ i < min n xs.size := by omega
      have hnew : i - min n xs.size < n - xs.size := by omega
      simp [hi, hs, hold, hnew]
  · -- The entry lies behind the end of the new array.
    have hold : ¬ i < min n xs.size := by omega
    have hnew : ¬ i - min n xs.size < n - xs.size := by omega
    simp [hi, hold, hnew]

/-- A resized table keeps the chunks inside it and fills up with untouched ones. -/
theorem status?_resize (t : ChunkTable) (n i : Nat) :
    (t.resize n).2.status? i =
      if i < n then some ((t.status? i).getD .untouched) else none :=
  getElem?_take_append_replicate t.status n .untouched i

/-- Giving up keeps what has arrived. -/
theorem status?_abort (t : ChunkTable) (i : Nat) :
    t.abort.status? i =
      (t.status? i).map fun s => if s = .received then .received else .aborted := by
  simp [abort, status?]

/-! ### The size of the table -/

/-- A request does not change the number of chunks. -/
theorem size_request? {t u : ChunkTable} {chunk : Nat} (h : t.request? chunk = some u) :
    u.size = t.size := by
  unfold request? at h
  split at h <;> cases h <;> simp [size]

/-- A timeout does not change the number of chunks. -/
theorem size_timeOut? {t u : ChunkTable} {chunk : Nat} (h : t.timeOut? chunk = some u) :
    u.size = t.size := by
  unfold timeOut? at h
  split at h <;> cases h
  simp [size]

/-- Data does not change the number of chunks. -/
theorem size_receive (t : ChunkTable) (chunk : Nat) : (t.receive chunk).2.size = t.size := by
  unfold receive
  split <;> simp [size]

/-- A chunk with a status lies inside the table. -/
theorem lt_size_of_status? {t : ChunkTable} {chunk : Nat} {s : ChunkStatus}
    (h : t.status? chunk = some s) : chunk < t.size :=
  (Array.getElem?_eq_some_iff.mp h).1

/-! ### Requests that are out -/

/-- The number of requests that are out is that of the requested chunks. -/
def Counted (t : ChunkTable) : Prop := t.inFlight = t.status.count .requested

/-- Nothing is out in a fresh table, and nothing is counted. -/
theorem counted_ofSize (n : Nat) : (ofSize n).Counted := by
  simp [Counted, ofSize, Array.count_replicate]

/-- Where a request is out, a chunk is requested. -/
theorem Counted.exists_requested {t : ChunkTable} (h : t.Counted) (hout : 0 < t.inFlight) :
    ∃ chunk, t.status? chunk = some .requested := by
  rw [h, Array.count_pos_iff] at hout
  exact Array.mem_iff_getElem?.mp hout

/-- A chunk whose status is replaced is counted by its new status. -/
theorem count_setIfInBounds {status : Array ChunkStatus} {chunk : Nat} {old : ChunkStatus}
    (hold : status[chunk]? = some old) (new : ChunkStatus) :
    (status.setIfInBounds chunk new).count .requested =
      status.count .requested - (if old = .requested then 1 else 0) +
        if new = .requested then 1 else 0 := by
  obtain ⟨hlt, rfl⟩ := Array.getElem?_eq_some_iff.mp hold
  rw [Array.setIfInBounds_def, dif_pos hlt, Array.count_set]
  simp

/-- A request that is accepted was not counted, and is counted now. -/
theorem Counted.request? {t u : ChunkTable} (h : t.Counted) {chunk : Nat}
    (hu : t.request? chunk = some u) : u.Counted := by
  have hcount : u.status.count .requested = t.status.count .requested + 1 ∧
      u.inFlight = t.inFlight + 1 := by
    unfold ChunkTable.request? at hu
    split at hu <;> cases hu
    · rename_i hold
      simp [count_setIfInBounds hold]
    · rename_i hold
      simp [count_setIfInBounds hold]
  rw [Counted, hcount.1, hcount.2, h]

/-- A request in vain was counted, and is not counted now. -/
theorem Counted.timeOut? {t u : ChunkTable} (h : t.Counted) {chunk : Nat}
    (hu : t.timeOut? chunk = some u) : u.Counted := by
  unfold ChunkTable.timeOut? at hu
  split at hu <;> cases hu
  rename_i hold
  simp [Counted, count_setIfInBounds hold, h.symm]

/-- Data is counted off only if its request was still out. -/
theorem Counted.receive {t : ChunkTable} (h : t.Counted) (chunk : Nat) :
    (t.receive chunk).2.Counted := by
  unfold ChunkTable.receive
  split
  · exact h
  · rename_i hold
    simp [Counted, count_setIfInBounds hold, h.symm]
  · rename_i hold
    simp [Counted, count_setIfInBounds hold, h.symm]
  · exact h

/-- The requested chunks from a number on are those of the rest of the table. -/
theorem length_requestedFrom (t : ChunkTable) (n : Nat) :
    (t.requestedFrom n).length = (t.status.toList.drop n).count .requested := by
  -- The same for the statuses as a list, along the list and the number.
  have hall : ∀ (l : List ChunkStatus) (n : Nat),
      ((List.range l.length).filter fun i => n ≤ i && l[i]? == some .requested).length =
        (l.drop n).count .requested := by
    intro l
    induction l with
    | nil => simp
    | cons s rest ih =>
        intro n
        rw [List.length_cons, List.range_succ_eq_map, List.filter_cons, List.filter_map]
        cases n with
        | zero =>
            have hrest := ih 0
            by_cases hs : s = .requested <;> simp_all [Function.comp_def]
        | succ n =>
            have hrest := ih n
            simp_all [Function.comp_def]
  have hstatus := hall t.status.toList n
  simpa [requestedFrom, size, status?] using hstatus

/-- What falls off the end of a resized table was requested and lies behind the end. -/
theorem mem_requestedFrom {t : ChunkTable} {n i : Nat} :
    i ∈ t.requestedFrom n ↔ n ≤ i ∧ t.status? i = some .requested := by
  simp only [requestedFrom, List.mem_filter, List.mem_range, Bool.and_eq_true, decide_eq_true_eq,
    beq_iff_eq]
  -- A chunk with a status lies inside the table.
  exact ⟨And.right, fun h => ⟨lt_size_of_status? h.2, h⟩⟩

/-- The requests that fall off the end of a resized table are not counted any more. -/
theorem Counted.resize {t : ChunkTable} (h : t.Counted) (n : Nat) : (t.resize n).2.Counted := by
  have hsplit : t.status.count .requested =
      (t.status.take n).count .requested + (t.requestedFrom n).length := by
    have htake : (t.status.take n).toList = t.status.toList.take n := by simp
    rw [length_requestedFrom, ← Array.count_toList, ← Array.count_toList, htake,
      ← List.count_append, List.take_append_drop]
  unfold Counted ChunkTable.resize
  rw [Array.count_append, Array.count_replicate, h, hsplit]
  simp

/-! ### Chunks to be requested -/

/-- A fresh table has only untouched chunks. -/
theorem status?_ofSize {n i : Nat} {s : ChunkStatus} (h : (ofSize n).status? i = some s) :
    s = .untouched := by
  simp only [status?, ofSize, Array.getElem?_replicate] at h
  split at h
  · exact (Option.some.inj h).symm
  · cases h

/-- A fresh table counts no requests. -/
theorem attemptsOf_ofSize (n i : Nat) : (ofSize n).attemptsOf i = 0 := by
  simp only [attemptsOf, ofSize, Array.getElem?_replicate]
  split <;> rfl

/-- Where no chunk has to be requested, each one is requested, received or given up. -/
theorem isNeeded_of_nextNeeded {t : ChunkTable} (h : t.nextNeeded = none) {i : Nat}
    {s : ChunkStatus} (hs : t.status? i = some s) : s.isNeeded = false :=
  Array.findIdx?_eq_none_iff.mp h s (Array.mem_of_getElem? hs)

/-- A chunk that has to be requested was never requested, or in vain. -/
theorem of_nextNeeded {t : ChunkTable} {chunk : Nat} (h : t.nextNeeded = some chunk) :
    t.status? chunk = some .untouched ∨ t.status? chunk = some .timedOut := by
  obtain ⟨hlt, hneeded, -⟩ := Array.findIdx?_eq_some_iff_getElem.mp h
  have hstatus : t.status? chunk = some t.status[chunk] := Array.getElem?_eq_getElem hlt
  rw [hstatus]
  cases hs : t.status[chunk] with
  | untouched => exact .inl rfl
  | timedOut => exact .inr rfl
  | _ =>
      rw [hs] at hneeded
      cases hneeded

/-! ### Attempts -/

/-- A table has a number of attempts for each of its chunks. -/
def Attempted (t : ChunkTable) : Prop := t.attempts.size = t.size

/-- A fresh table starts with a number for each chunk. -/
theorem attempted_ofSize (n : Nat) : (ofSize n).Attempted := by
  simp [Attempted, ofSize, size]

/-- A request changes a number of attempts and adds none. -/
theorem Attempted.request? {t u : ChunkTable} (h : t.Attempted) {chunk : Nat}
    (hu : t.request? chunk = some u) : u.Attempted := by
  rw [Attempted, size_request? hu, ← h]
  unfold ChunkTable.request? at hu
  split at hu <;> cases hu <;> exact Array.size_modify

/-- A timeout leaves the attempts alone. -/
theorem Attempted.timeOut? {t u : ChunkTable} (h : t.Attempted) {chunk : Nat}
    (hu : t.timeOut? chunk = some u) : u.Attempted := by
  rw [Attempted, size_timeOut? hu, ← h]
  unfold ChunkTable.timeOut? at hu
  split at hu <;> cases hu
  rfl

/-- Data leaves the attempts alone. -/
theorem Attempted.receive {t : ChunkTable} (h : t.Attempted) (chunk : Nat) :
    (t.receive chunk).2.Attempted := by
  rw [Attempted, size_receive, ← h]
  unfold ChunkTable.receive
  split <;> rfl

/-- Statuses and attempts are cut or filled up to the same size. -/
theorem attempted_resize (t : ChunkTable) (n : Nat) : (t.resize n).2.Attempted := by
  rw [Attempted, size_resize]
  simp [resize]
  omega

/-- Giving up leaves the attempts alone. -/
theorem Attempted.abort {t : ChunkTable} (h : t.Attempted) : t.abort.Attempted := by
  rw [Attempted, size_abort]
  exact h

/-- A request is one attempt more for its chunk. -/
theorem attemptsOf_request? {t u : ChunkTable} (h : t.Attempted) {chunk : Nat}
    (hu : t.request? chunk = some u) (i : Nat) :
    u.attemptsOf i = t.attemptsOf i + if i = chunk then 1 else 0 := by
  have hlt : chunk < t.attempts.size := by
    rw [h]
    rcases needed_of_request? hu with hs | hs <;> exact lt_size_of_status? hs
  have hattempts : u.attempts = t.attempts.modify chunk (· + 1) := by
    unfold request? at hu
    split at hu <;> cases hu <;> rfl
  unfold attemptsOf
  rw [hattempts, Array.getElem?_modify]
  by_cases hi : i = chunk
  · subst hi
    simp [hlt]
  · simp [hi, Ne.symm hi]

/-- A timeout is no attempt. -/
theorem attemptsOf_timeOut? {t u : ChunkTable} {chunk : Nat} (h : t.timeOut? chunk = some u)
    (i : Nat) : u.attemptsOf i = t.attemptsOf i := by
  unfold timeOut? at h
  split at h <;> cases h
  rfl

/-- An arrival is no attempt. -/
theorem attemptsOf_receive (t : ChunkTable) (chunk i : Nat) :
    (t.receive chunk).2.attemptsOf i = t.attemptsOf i := by
  unfold receive
  split <;> rfl

/-- A resized table keeps the attempts of the chunks inside it. -/
theorem attemptsOf_resize (t : ChunkTable) (n i : Nat) :
    (t.resize n).2.attemptsOf i = if i < n then t.attemptsOf i else 0 := by
  show ((t.attempts.take n ++ Array.replicate (n - t.attempts.size) 0)[i]?).getD 0 = _
  rw [getElem?_take_append_replicate]
  split <;> rfl

/-- Giving up is no attempt, and forgets none. -/
theorem attemptsOf_abort (t : ChunkTable) (i : Nat) : t.abort.attemptsOf i = t.attemptsOf i := rfl

/-- A request that is accepted is one more that is out. -/
theorem inFlight_request? {t u : ChunkTable} {chunk : Nat} (h : t.request? chunk = some u) :
    u.inFlight = t.inFlight + 1 := by
  unfold request? at h
  split at h <;> cases h <;> rfl

/-- A timeout never raises the number of requests that are out. -/
theorem inFlight_timeOut? {t u : ChunkTable} {chunk : Nat} (h : t.timeOut? chunk = some u) :
    u.inFlight ≤ t.inFlight := by
  unfold timeOut? at h
  split at h <;> cases h
  exact Nat.sub_le _ _

/-- Data never raises the number of requests that are out. -/
theorem inFlight_receive (t : ChunkTable) (chunk : Nat) :
    (t.receive chunk).2.inFlight ≤ t.inFlight := by
  unfold receive
  split
  · exact Nat.le_refl _
  · exact Nat.sub_le _ _
  · exact Nat.le_refl _
  · exact Nat.le_refl _

/-- A request that is out is answered by data that is in time. -/
theorem receive_of_requested {t : ChunkTable} {chunk : Nat}
    (hs : t.status? chunk = some .requested) : (t.receive chunk).1 = .new true := by
  unfold receive
  rw [hs]

/-- A chunk that arrives late was not out any more. -/
theorem inFlight_receive_of_timedOut {t : ChunkTable} {chunk : Nat}
    (hs : t.status? chunk = some .timedOut) : (t.receive chunk).2.inFlight = t.inFlight := by
  unfold receive
  rw [hs]

/-- A new size never raises the number of requests that are out. -/
theorem inFlight_resize (t : ChunkTable) (n : Nat) : (t.resize n).2.inFlight ≤ t.inFlight :=
  Nat.sub_le _ _

/-! ### What has arrived -/

/-- Whether a chunk has arrived. -/
def hasReceived (t : ChunkTable) (chunk : Nat) : Bool := t.status? chunk == some .received

/-- Nothing has arrived in a fresh table. -/
theorem hasReceived_ofSize (n i : Nat) : (ofSize n).hasReceived i = false := by
  simp only [hasReceived, status?, ofSize, Array.getElem?_replicate]
  split <;> rfl

/-- A request changes nothing about what has arrived. -/
theorem hasReceived_request? {t u : ChunkTable} {chunk : Nat} (h : t.request? chunk = some u)
    (i : Nat) : u.hasReceived i = t.hasReceived i := by
  unfold hasReceived
  rw [status?_request? h]
  split
  · rename_i hi
    subst hi
    -- What may be requested has not arrived, neither before nor after.
    rcases needed_of_request? h with hs | hs <;> rw [hs] <;> rfl
  · rfl

/-- A timeout changes nothing about what has arrived. -/
theorem hasReceived_timeOut? {t u : ChunkTable} {chunk : Nat} (h : t.timeOut? chunk = some u)
    (i : Nat) : u.hasReceived i = t.hasReceived i := by
  unfold hasReceived
  rw [status?_timeOut? h]
  split
  · rename_i hi
    subst hi
    -- What was out has not arrived, neither before nor after.
    rw [requested_of_timeOut? h]
    rfl
  · rfl

/-- New data adds its chunk to what has arrived. -/
theorem hasReceived_receive {t : ChunkTable} {chunk : Nat} {b : Bool}
    (h : (t.receive chunk).1 = .new b) (i : Nat) :
    (t.receive chunk).2.hasReceived i = (i == chunk || t.hasReceived i) := by
  unfold hasReceived
  rw [status?_receive h]
  by_cases hi : i = chunk <;> simp [hi]

/-- What has arrived inside the new table has arrived, and nothing else. -/
theorem hasReceived_resize (t : ChunkTable) (n i : Nat) :
    (t.resize n).2.hasReceived i = (decide (i < n) && t.hasReceived i) := by
  unfold hasReceived
  rw [status?_resize]
  by_cases hi : i < n
  · cases hs : t.status? i <;> simp [hi]
  · simp [hi]

/-- What has arrived stays when the rest is given up. -/
theorem hasReceived_abort (t : ChunkTable) (i : Nat) :
    t.abort.hasReceived i = t.hasReceived i := by
  unfold hasReceived
  rw [status?_abort]
  cases t.status? i with
  | none => rfl
  | some s => cases s <;> rfl

end LayerCast.ChunkTable
