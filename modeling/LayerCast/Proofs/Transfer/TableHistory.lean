import LayerCast.Arith.Checked
import LayerCast.Proofs.Transfer.ChunkTable

/-!
# `LayerCast.Proofs.Transfer.TableHistory`: chunk tables over any history of calls

A chunk table keeps the number of its requests that are out beside the statuses that it could be
counted from, and the numbers of attempts beside the statuses that they belong to. Here a table is
taken through any history of calls (`TableCall`, `performAll`), with chunks that lie outside of it,
and with lengths that cut off requested chunks and grow again.

`turns` says what a call makes of the status of one chunk. That the chunk was inside the table
before the call and is inside of it afterwards is all that is asked there (`status?_perform`), so
that the moves of a chunk (`Moves`) are read off `turns`. Three of the calls change one chunk, from
the statuses that allow it (`Rewrites`). `Consistent` is what every call preserves:
the two numbers beside the statuses are right, and all of them are words.

`table_consistent` says all of it of every table that a history can lead to.
-/

set_option autoImplicit false

namespace LayerCast

/-- A call that can change a chunk table. -/
inductive TableCall where
  | request (chunk : Nat)
  | timeOut (chunk : Nat)
  | receive (chunk : Nat)
  | resize (size : Nat)
  | abort
  deriving DecidableEq, Repr

namespace TableCall

/-- What a call makes of the status of a chunk that stays inside the table. -/
def turns (call : TableCall) (chunk : Nat) (s : ChunkStatus) : ChunkStatus :=
  match call with
  | .request c => if c = chunk ∧ s.isNeeded then .requested else s
  | .timeOut c => if c = chunk ∧ s = .requested then .timedOut else s
  | .receive c => if c = chunk ∧ (s = .requested ∨ s = .timedOut) then .received else s
  | .resize _ => s
  | .abort => if s = .received then .received else .aborted

end TableCall

namespace ChunkStatus

/-- The ways in which a status may change. -/
inductive Moves : ChunkStatus → ChunkStatus → Prop where
  | request : Moves .untouched .requested
  | arrival : Moves .requested .received
  | timeout : Moves .requested .timedOut
  | abort : Moves .requested .aborted
  | retry : Moves .timedOut .requested
  | lateArrival : Moves .timedOut .received
  | abortTimedOut : Moves .timedOut .aborted
  | abortUntouched : Moves .untouched .aborted

/-- A status stays as it is, or changes in a way in which it may. -/
theorem moves_turns (call : TableCall) (chunk : Nat) (s : ChunkStatus) :
    call.turns chunk s = s ∨ Moves s (call.turns chunk s) := by
  -- Each call has the statuses in which it may do something, and these are the moves.
  cases call with
  | request c =>
      simp only [TableCall.turns]
      split
      · rename_i h
        cases s with
        | untouched => exact .inr .request
        | timedOut => exact .inr .retry
        | _ => cases h.2
      · exact .inl rfl
  | timeOut c =>
      simp only [TableCall.turns]
      split
      · rename_i h
        exact .inr (h.2 ▸ .timeout)
      · exact .inl rfl
  | receive c =>
      simp only [TableCall.turns]
      split
      · rename_i h
        cases h.2 with
        | inl hs => exact .inr (hs ▸ .arrival)
        | inr hs => exact .inr (hs ▸ .lateArrival)
      · exact .inl rfl
  | resize size => exact .inl rfl
  | abort =>
      cases s with
      | untouched => exact .inr .abortUntouched
      | requested => exact .inr .abort
      | received => exact .inl rfl
      | timedOut => exact .inr .abortTimedOut
      | aborted => exact .inl rfl

/-- What has arrived stays so. -/
theorem turns_received (call : TableCall) (chunk : Nat) :
    call.turns chunk .received = .received := by
  cases moves_turns call chunk .received with
  | inl hsame => exact hsame
  | inr hmoves => cases hmoves

end ChunkStatus

namespace ChunkTable

/-- The table after a call. A call that is refused leaves it as it was. -/
def perform (t : ChunkTable) : TableCall → ChunkTable
  | .request chunk => (t.request? chunk).getD t
  | .timeOut chunk => (t.timeOut? chunk).getD t
  | .receive chunk => (t.receive chunk).2
  | .resize n => (t.resize n).2
  | .abort => t.abort

/-- The table after several calls. -/
def performAll (t : ChunkTable) (calls : List TableCall) : ChunkTable := calls.foldl perform t

/-! ### The statuses -/

/-- A request is accepted only for a chunk that has to be requested. -/
theorem isNeeded_of_request? {t u : ChunkTable} {chunk : Nat} (h : t.request? chunk = some u)
    {s : ChunkStatus} (hs : t.status? chunk = some s) : s.isNeeded = true := by
  have hneeded := needed_of_request? h
  rw [hs, Option.some.injEq, Option.some.injEq] at hneeded
  cases hneeded with
  | inl huntouched => rw [huntouched]; rfl
  | inr htimedOut => rw [htimedOut]; rfl

/-- A request is refused for a chunk that does not have to be requested. -/
theorem not_needed_of_request? {t : ChunkTable} {chunk : Nat} (h : t.request? chunk = none)
    {s : ChunkStatus} (hs : t.status? chunk = some s) : s.isNeeded = false := by
  unfold request? at h
  rw [hs] at h
  cases s with
  | untouched => cases h
  | timedOut => cases h
  | _ => rfl

/-- A timeout is refused where no request is out. -/
theorem not_requested_of_timeOut? {t : ChunkTable} {chunk : Nat} (h : t.timeOut? chunk = none) :
    t.status? chunk ≠ some .requested := by
  intro hs
  unfold timeOut? at h
  rw [hs] at h
  cases h

/-- Data that is not new leaves the table as it was. -/
theorem receive_of_not_new {t : ChunkTable} {chunk : Nat}
    (h : ¬ ∃ b, (t.receive chunk).1 = .new b) : (t.receive chunk).2 = t := by
  unfold receive at h ⊢
  split
  · rfl
  · rename_i hs
    exact absurd ⟨true, by rw [hs]⟩ h
  · rename_i hs
    exact absurd ⟨false, by rw [hs]⟩ h
  · rfl

/-- One chunk takes a new status if the one that it has allows that, and all others keep theirs. -/
def Rewrites (t u : ChunkTable) (chunk : Nat) (allowed : ChunkStatus → Prop)
    (new : ChunkStatus) : Prop :=
  (u = t ∧ ∀ s, t.status? chunk = some s → ¬allowed s) ∨
    (∀ s, t.status? chunk = some s → allowed s) ∧
      ∀ i, u.status? i = if i = chunk then some new else t.status? i

/-- A request changes its chunk, if that has to be requested. -/
theorem rewrites_request (t : ChunkTable) (chunk : Nat) :
    t.Rewrites ((t.request? chunk).getD t) chunk (·.isNeeded = true) .requested := by
  cases hu : t.request? chunk with
  | none =>
      refine .inl ⟨rfl, fun s hs hneeded => ?_⟩
      exact Bool.false_ne_true ((not_needed_of_request? hu hs).symm.trans hneeded)
  | some u => exact .inr ⟨fun s hs => isNeeded_of_request? hu hs, status?_request? hu⟩

/-- A timeout changes its chunk, if that is out. -/
theorem rewrites_timeOut (t : ChunkTable) (chunk : Nat) :
    t.Rewrites ((t.timeOut? chunk).getD t) chunk (· = .requested) .timedOut := by
  cases hu : t.timeOut? chunk with
  | none =>
      refine .inl ⟨rfl, fun s hs hrequested => ?_⟩
      exact not_requested_of_timeOut? hu (hrequested ▸ hs)
  | some u =>
      refine .inr ⟨fun s hs => ?_, status?_timeOut? hu⟩
      exact Option.some.inj (hs.symm.trans (requested_of_timeOut? hu))

/-- Data changes its chunk, if that was requested and has not arrived. -/
theorem rewrites_receive (t : ChunkTable) (chunk : Nat) :
    t.Rewrites (t.receive chunk).2 chunk (fun s => s = .requested ∨ s = .timedOut) .received := by
  by_cases hnew : ∃ b, (t.receive chunk).1 = .new b
  · have hawaited := new_iff.mp hnew
    obtain ⟨b, hb⟩ := hnew
    refine .inr ⟨fun s hs => ?_, status?_receive hb⟩
    rwa [hs, Option.some.injEq, Option.some.injEq] at hawaited
  · refine .inl ⟨receive_of_not_new hnew, fun s hs hawaited => hnew (new_iff.mpr ?_)⟩
    rwa [hs, Option.some.injEq, Option.some.injEq]

/-- The new status of a chunk that is inside the table before and afterwards. -/
theorem Rewrites.status_eq {t u : ChunkTable} {c chunk : Nat} {s s' new : ChunkStatus}
    {allowed : ChunkStatus → Prop} [DecidablePred allowed] (h : t.Rewrites u c allowed new)
    (hs : t.status? chunk = some s) (hs' : u.status? chunk = some s') :
    s' = if c = chunk ∧ allowed s then new else s := by
  rcases h with ⟨rfl, hrefused⟩ | ⟨hallowed, hstatus⟩
  · have hkept : ¬(c = chunk ∧ allowed s) := by
      rintro ⟨rfl, hmay⟩
      exact hrefused s hs hmay
    rw [if_neg hkept]
    exact Option.some.inj (hs'.symm.trans hs)
  · rw [hstatus, hs] at hs'
    -- The chunk is the one that is rewritten, or another one.
    by_cases hc : chunk = c
    · subst hc
      rw [if_pos rfl] at hs'
      rw [if_pos ⟨rfl, hallowed s hs⟩]
      exact (Option.some.inj hs').symm
    · rw [if_neg hc] at hs'
      rw [if_neg fun h => hc h.1.symm]
      exact (Option.some.inj hs').symm

/-- A chunk that stays inside the table has the status that the call makes of it. -/
theorem status?_perform {t : ChunkTable} {call : TableCall} {chunk : Nat} {s s' : ChunkStatus}
    (hs : t.status? chunk = some s) (hs' : (t.perform call).status? chunk = some s') :
    s' = call.turns chunk s := by
  cases call with
  | request c => exact (rewrites_request t c).status_eq hs hs'
  | timeOut c => exact (rewrites_timeOut t c).status_eq hs hs'
  | receive c => exact (rewrites_receive t c).status_eq hs hs'
  | resize n =>
      simp only [perform, status?_resize, hs] at hs'
      split at hs'
      · exact (Option.some.inj hs').symm
      · cases hs'
  | abort =>
      simp only [perform, status?_abort, hs] at hs'
      exact (Option.some.inj hs').symm

/-- The number of chunks changes with the length that is set. -/
theorem size_perform (t : ChunkTable) (call : TableCall) :
    (t.perform call).size = match call with
      | .resize n => n
      | _ => t.size := by
  cases call with
  | request c =>
      simp only [perform]
      cases hu : t.request? c with
      | none => rfl
      | some u => exact size_request? hu
  | timeOut c =>
      simp only [perform]
      cases hu : t.timeOut? c with
      | none => rfl
      | some u => exact size_timeOut? hu
  | receive c => exact size_receive t c
  | resize n => exact size_resize t n
  | abort => exact size_abort t

/-- A chunk that is inside the table has a status. -/
theorem exists_status? {t : ChunkTable} {chunk : Nat} (h : chunk < t.size) :
    ∃ s, t.status? chunk = some s :=
  ⟨_, Array.getElem?_eq_getElem h⟩

/-- What has arrived stays so as long as its chunk is inside the table. -/
theorem received_performAll (calls : List TableCall) {t : ChunkTable} {chunk : Nat}
    (hreceived : t.status? chunk = some .received)
    (hinside : ∀ n, .resize n ∈ calls → chunk < n) :
    (t.performAll calls).status? chunk = some .received := by
  induction calls generalizing t with
  | nil => exact hreceived
  | cons call calls ih =>
      show ((t.perform call).performAll calls).status? chunk = some .received
      apply ih
      · have hlt : chunk < (t.perform call).size := by
          rw [size_perform]
          split
          · exact hinside _ List.mem_cons_self
          · exact lt_size_of_status? hreceived
        obtain ⟨s, hs⟩ := exists_status? hlt
        rw [hs, status?_perform hreceived hs, ChunkStatus.turns_received]
      · intro n hn
        exact hinside n (List.mem_cons_of_mem call hn)

/-! ### The numbers beside the statuses -/

/-- Once all is given up, no request is out and none is counted. -/
theorem Counted.abort (t : ChunkTable) : t.abort.Counted := by
  show 0 = (t.status.map _).count ChunkStatus.requested
  rw [eq_comm, Array.count_eq_zero, Array.mem_map]
  rintro ⟨s, -, hs⟩
  split at hs
  · cases hs
  · cases hs

/-- What holds of a table, and of every table that it is changed into, holds after any call. -/
theorem perform_keeps {P : ChunkTable → Prop} {t : ChunkTable} (hkept : P t)
    (hrequest : ∀ c u, t.request? c = some u → P u)
    (htimeOut : ∀ c u, t.timeOut? c = some u → P u) (hreceive : ∀ c, P (t.receive c).2)
    (hresize : ∀ n, P (t.resize n).2) (habort : P t.abort) (call : TableCall) :
    P (t.perform call) := by
  cases call with
  | request c =>
      simp only [perform]
      cases hu : t.request? c with
      | none => exact hkept
      | some u => exact hrequest c u hu
  | timeOut c =>
      simp only [perform]
      cases hu : t.timeOut? c with
      | none => exact hkept
      | some u => exact htimeOut c u hu
  | receive c => exact hreceive c
  | resize n => exact hresize n
  | abort => exact habort

/-- Every call keeps the number of requests that are out. -/
theorem Counted.perform {t : ChunkTable} (h : t.Counted) (call : TableCall) :
    (t.perform call).Counted :=
  perform_keeps h (fun _ _ => h.request?) (fun _ _ => h.timeOut?) h.receive h.resize
    (Counted.abort t) call

/-- Every call keeps one number of attempts for each chunk. -/
theorem Attempted.perform {t : ChunkTable} (h : t.Attempted) (call : TableCall) :
    (t.perform call).Attempted :=
  perform_keeps h (fun _ _ => h.request?) (fun _ _ => h.timeOut?) h.receive (attempted_resize t)
    h.abort call

/-- A call makes at most one attempt more, and that only by requesting the chunk. -/
theorem attemptsOf_perform_le {t : ChunkTable} (h : t.Attempted) (call : TableCall) (i : Nat) :
    (t.perform call).attemptsOf i ≤
      t.attemptsOf i + if call = .request i then 1 else 0 := by
  cases call with
  | request c =>
      simp only [perform]
      cases hu : t.request? c with
      | none => exact Nat.le_add_right _ _
      | some u =>
          rw [Option.getD_some, attemptsOf_request? h hu]
          by_cases hi : i = c
          · simp [hi]
          · simp [hi]
  | timeOut c =>
      simp only [perform]
      cases hu : t.timeOut? c with
      | none => exact Nat.le_add_right _ _
      | some u => exact Nat.le_of_eq (attemptsOf_timeOut? hu i)
  | receive c => exact Nat.le_of_eq (attemptsOf_receive t c i)
  | resize n =>
      simp only [perform, attemptsOf_resize]
      split
      · exact Nat.le_add_right _ _
      · exact Nat.zero_le _
  | abort => exact Nat.le_refl _

/-- What is kept beside the statuses is right, and fits into words. -/
structure Consistent (t : ChunkTable) : Prop where
  inFlight : t.inFlight = t.status.count .requested
  attempts : t.attempts.size = t.status.size
  size_le : t.size ≤ word32

/-- A fresh table is consistent. -/
theorem consistent_ofSize {n : Nat} (hn : n ≤ word32) : (ofSize n).Consistent :=
  ⟨counted_ofSize n, attempted_ofSize n, by rwa [size_ofSize]⟩

/-- Every call keeps a table consistent. -/
theorem Consistent.perform {t : ChunkTable} (h : t.Consistent) {call : TableCall}
    (hlength : ∀ n, call = .resize n → n ≤ word32) : (t.perform call).Consistent := by
  constructor
  · exact Counted.perform h.inFlight call
  · exact Attempted.perform h.attempts call
  · rw [size_perform]
    split
    · exact hlength _ rfl
    · exact h.size_le

/-- Every history keeps a table consistent, and counts no more attempts for a chunk than it has
requests of it. -/
theorem Consistent.performAll (calls : List TableCall) {t : ChunkTable} (h : t.Consistent)
    (hlengths : ∀ n, .resize n ∈ calls → n ≤ word32) :
    (t.performAll calls).Consistent ∧ ∀ i,
      (t.performAll calls).attemptsOf i ≤ t.attemptsOf i + calls.count (.request i) := by
  induction calls generalizing t with
  | nil => exact ⟨h, fun i => Nat.le_refl _⟩
  | cons call calls ih =>
      have hnext : (t.perform call).Consistent := by
        apply h.perform
        rintro n rfl
        exact hlengths n List.mem_cons_self
      obtain ⟨hlast, hattempts⟩ := ih hnext fun n hn =>
        hlengths n (List.mem_cons_of_mem call hn)
      refine ⟨hlast, fun i => ?_⟩
      have hrest : ((t.perform call).performAll calls).attemptsOf i ≤
          (t.perform call).attemptsOf i + calls.count (.request i) := hattempts i
      -- The first call makes one attempt at most, and is one of those that are counted.
      have hfirst := attemptsOf_perform_le h.attempts call i
      show ((t.perform call).performAll calls).attemptsOf i ≤ _
      rw [List.count_cons]
      simp only [beq_iff_eq]
      omega

/-! ### What is read off a table -/

/-- A chunk has to be requested, for the first time or again. -/
def Needs (t : ChunkTable) (chunk : Nat) : Prop :=
  t.status? chunk = some .untouched ∨ t.status? chunk = some .timedOut

/-- The statuses that have to be requested are the two that `Needs` lists. -/
theorem needs_iff {t : ChunkTable} {chunk : Nat} :
    t.Needs chunk ↔ ∃ s, t.status? chunk = some s ∧ s.isNeeded = true := by
  constructor
  · intro h
    cases h with
    | inl hs => exact ⟨_, hs, rfl⟩
    | inr hs => exact ⟨_, hs, rfl⟩
  · rintro ⟨s, hs, hneeded⟩
    cases s with
    | untouched => exact .inl hs
    | timedOut => exact .inr hs
    | _ => cases hneeded

/-- The next chunk to be requested is the first one that has to be. -/
theorem nextNeeded_eq_some_iff {t : ChunkTable} {chunk : Nat} :
    t.nextNeeded = some chunk ↔ t.Needs chunk ∧ ∀ other < chunk, ¬ t.Needs other := by
  simp only [nextNeeded, Array.findIdx?_eq_some_iff_getElem, needs_iff, status?]
  constructor
  · rintro ⟨hlt, hneeded, hfirst⟩
    refine ⟨⟨_, Array.getElem?_eq_getElem hlt, hneeded⟩, ?_⟩
    rintro other hother ⟨s, hs, hneeded'⟩
    obtain ⟨hlt', rfl⟩ := Array.getElem?_eq_some_iff.mp hs
    exact hfirst other hother hneeded'
  · rintro ⟨⟨s, hs, hneeded⟩, hfirst⟩
    obtain ⟨hlt, rfl⟩ := Array.getElem?_eq_some_iff.mp hs
    refine ⟨hlt, hneeded, ?_⟩
    intro other hother hneeded'
    exact hfirst other hother ⟨_, Array.getElem?_eq_getElem (by omega), hneeded'⟩

/-- There is no next chunk exactly if none has to be requested. -/
theorem nextNeeded_eq_none_iff {t : ChunkTable} :
    t.nextNeeded = none ↔ ∀ chunk, ¬ t.Needs chunk := by
  constructor
  · intro h chunk hneeds
    obtain ⟨s, hs, hneeded⟩ := needs_iff.mp hneeds
    rw [isNeeded_of_nextNeeded h hs] at hneeded
    cases hneeded
  · intro h
    cases hnext : t.nextNeeded with
    | none => rfl
    | some chunk => exact absurd (of_nextNeeded hnext) (h chunk)

/-- What falls off the end of a resized table is returned in its order. -/
theorem pairwise_requestedFrom (t : ChunkTable) (n : Nat) :
    (t.requestedFrom n).Pairwise (· < ·) :=
  List.Pairwise.filter _ List.pairwise_lt_range

/-- The number of requests that are out is never made smaller than zero. -/
structure Subtracts (t : ChunkTable) : Prop where
  timeOut : ∀ chunk u, t.timeOut? chunk = some u → u.inFlight + 1 = t.inFlight
  receive : ∀ chunk, (t.receive chunk).1 = .new true →
    (t.receive chunk).2.inFlight + 1 = t.inFlight
  resize : ∀ n, (t.resize n).2.inFlight + (t.resize n).1.length = t.inFlight

/-- Where a chunk is requested, a request is out. -/
theorem Counted.inFlight_pos {t : ChunkTable} (h : t.Counted) {chunk : Nat}
    (hrequested : t.status? chunk = some .requested) : 0 < t.inFlight := by
  rw [h, Array.count_pos_iff]
  exact Array.mem_of_getElem? hrequested

/-- A table with the right number of requests takes from it what is there. -/
theorem Counted.subtracts {t : ChunkTable} (h : t.Counted) : t.Subtracts := by
  constructor
  · intro chunk u hu
    have hpos := h.inFlight_pos (requested_of_timeOut? hu)
    unfold ChunkTable.timeOut? at hu
    split at hu
    · cases hu
      exact Nat.sub_add_cancel hpos
    · cases hu
  · intro chunk hnew
    -- The answer tells which of the cases it was.
    revert hnew
    unfold ChunkTable.receive
    split
    · intro hnew
      cases hnew
    · rename_i hs
      intro _
      exact Nat.sub_add_cancel (h.inFlight_pos hs)
    · intro hnew
      cases hnew
    · intro hnew
      cases hnew
  · intro n
    have hle : (t.requestedFrom n).length ≤ t.inFlight := by
      rw [length_requestedFrom, h, ← Array.count_toList]
      exact (List.drop_sublist n _).count_le _
    exact Nat.sub_add_cancel hle

/-- **The chunk table stays consistent.** Whatever calls are made on a table, the number of its
requests that are out is that of its requested chunks, so that it is never made smaller than zero,
and there is one number of attempts for each chunk, which stays a word. The next chunk to be
requested is the first one that has to be, and there is none if no chunk has to be. A call changes
the status of a chunk that stays inside the table only in a way in which it may change, and never
after its arrival. A table that is made shorter returns the requested chunks that it loses, in
their order. -/
theorem table_consistent {n : Nat} (hn : n ≤ word32) {calls : List TableCall}
    (hlengths : ∀ k, .resize k ∈ calls → k ≤ word32)
    (hrequests : ∀ chunk, calls.count (.request chunk) < word32) {t : ChunkTable}
    (ht : (ofSize n).performAll calls = t) :
    (t.Consistent ∧ t.Subtracts ∧ ∀ chunk, t.attemptsOf chunk < word32) ∧
    ((∀ chunk, t.nextNeeded = some chunk ↔ t.Needs chunk ∧ ∀ other < chunk, ¬ t.Needs other) ∧
      (t.nextNeeded = none ↔ ∀ chunk, ¬ t.Needs chunk)) ∧
    (∀ call chunk s s', t.status? chunk = some s → (t.perform call).status? chunk = some s' →
      s' = s ∨ s.Moves s') ∧
    (∀ more chunk, t.status? chunk = some .received → (∀ k, .resize k ∈ more → chunk < k) →
      (t.performAll more).status? chunk = some .received) ∧
    ∀ k, (t.resize k).1.Pairwise (· < ·) ∧
      ∀ chunk, chunk ∈ (t.resize k).1 ↔ k ≤ chunk ∧ t.status? chunk = some .requested := by
  obtain ⟨hconsistent, hattempts⟩ := (consistent_ofSize hn).performAll calls hlengths
  rw [ht] at hconsistent hattempts
  refine ⟨⟨hconsistent, Counted.subtracts hconsistent.inFlight, ?words⟩,
    ⟨fun _ => nextNeeded_eq_some_iff, nextNeeded_eq_none_iff⟩, ?moves, ?final, ?dropped⟩
  case words =>
    intro chunk
    have hle := hattempts chunk
    rw [attemptsOf_ofSize, Nat.zero_add] at hle
    exact Nat.lt_of_le_of_lt hle (hrequests chunk)
  case moves =>
    intro call chunk s s' hs hs'
    rw [status?_perform hs hs']
    exact ChunkStatus.moves_turns call chunk s
  case final =>
    intro more chunk hreceived hinside
    exact received_performAll more hreceived hinside
  case dropped =>
    intro k
    exact ⟨pairwise_requestedFrom t k, fun _ => mem_requestedFrom⟩

/-- Three chunks of which one has arrived and two are out, cut off behind the second one. -/
theorem table_consistent_sample :
    (∀ k, TableCall.resize k ∈ [.request 0, .request 1, .request 2, .receive 0] → k ≤ word32) ∧
    (∀ chunk, [TableCall.request 0, .request 1, .request 2, .receive 0].count (.request chunk) <
      word32) ∧
    ∃ t, (ofSize 3).performAll [.request 0, .request 1, .request 2, .receive 0] = t ∧
      t.inFlight = t.status.count .requested ∧ t.inFlight = 2 ∧ (t.resize 2).1 = [2] ∧
      (t.resize 2).2.inFlight + (t.resize 2).1.length = t.inFlight ∧
      (t.performAll [.abort, .receive 1]).status? 0 = some .received := by
  have hlengths : ∀ k, TableCall.resize k ∈ [.request 0, .request 1, .request 2, .receive 0] →
      k ≤ word32 := by
    simp
  have hrequests : ∀ chunk,
      [TableCall.request 0, .request 1, .request 2, .receive 0].count (.request chunk) <
        word32 := by
    intro chunk
    apply Nat.lt_of_le_of_lt List.count_le_length
    decide
  obtain ⟨⟨hconsistent, hsubtracts, -⟩, -, -, hfinal, -⟩ :=
    table_consistent (show 3 ≤ word32 by decide) hlengths hrequests rfl
  exact ⟨hlengths, hrequests, _, rfl, hconsistent.inFlight, by decide, by decide,
    hsubtracts.resize 2, hfinal [.abort, .receive 1] 0 (by decide) (by simp)⟩

end ChunkTable

end LayerCast
