import LayerCast.Proofs.Transfer.Ledger
import LayerCast.Proofs.Transfer.Strides
import LayerCast.Proofs.Transfer.RoundTrip

/-!
# `LayerCast.Proofs.Transfer.Samples`: which requests the samples measure

The estimate outlives the transfers, but its record of the requests that are out is dropped with
each of them. The network knows nothing of this. It may still answer an interest of an earlier
transfer, and if the present transfer has the same name and has requested the chunk again, the reply
is taken.

An `Exchange` notes the interests that a fetcher has sent, over all transfers, and the replies that
have reached a running one. `Fetcher.Fits` is what every call preserves: the estimate is made of the
samples that were noted, each of them is the time since the only request that its transfer has sent
for the chunk, and the entries of the estimate tell when the other chunks were requested. So a
sample is the time between an interest and the reply to it, unless the reply is to an interest of an
earlier transfer (`samples_measure`). Such replies do give samples, and wrong ones
(`late_reply_sampled`).
-/

set_option autoImplicit false

namespace LayerCast

/-- An interest that was sent. -/
structure Exchange.Request where
  time : Nat
  name : ChunkName
  deriving DecidableEq, Repr

/-- A reply that has reached a running transfer. -/
structure Exchange.Answer where
  time : Nat
  name : ChunkName
  /-- The number of interests that were sent before this transfer. -/
  opened : Nat
  /-- The number of interests that were sent before this reply. -/
  sent : Nat
  /-- The sample that the estimate has taken. -/
  sample : Option Nat
  deriving DecidableEq, Repr

/-- What has passed between a fetcher and the network. -/
structure Exchange where
  /-- The interests, the oldest first. -/
  requests : List Exchange.Request := []
  /-- The number of interests that were sent before the last transfer. -/
  opened : Nat := 0
  /-- The replies, the oldest first. -/
  answers : List Exchange.Answer := []

namespace Exchange

/-- Notes that a transfer is started. -/
def start (x : Exchange) : Exchange := { x with opened := x.requests.length }

/-- Notes interests. -/
def send (x : Exchange) (now : Nat) (sent : List Interest) : Exchange :=
  { x with requests := x.requests ++ sent.map fun i => ⟨now, i.name⟩ }

/-- Notes a wake, if it is a reply. -/
def receive (x : Exchange) (now : Nat) (w : Wake) (sample : Option Nat) : Exchange :=
  match w with
  | .reply r =>
    { x with answers := x.answers ++ [⟨now, r.name, x.opened, x.requests.length, sample⟩] }
  | _ => x

/-- All samples. -/
def samples (x : Exchange) : List Nat := x.answers.filterMap (·.sample)

/-- The moments at which the last transfer has requested a chunk. The latest one comes first. -/
def moments (x : Exchange) (name : ChunkName) : List Nat :=
  (((x.requests.drop x.opened).filter fun r => r.name = name).map (·.time)).reverse

/-- The network has sent its replies in answer to interests: the reply with the number `k` in answer
to an interest that was sent before under the name of the reply, and that has the number `source k`.
-/
def Answered (x : Exchange) (source : Nat → Nat) : Prop :=
  ∀ k a, x.answers[k]? = some a →
    source k < a.sent ∧ ∃ time, x.requests[source k]? = some ⟨time, a.name⟩

/-- The network has answered no interest twice. -/
def AnsweredOnce (x : Exchange) (source : Nat → Nat) : Prop :=
  x.Answered source ∧ ∀ k l, k < l → l < x.answers.length → source k ≠ source l

/-- Every sample is the time between the interest that was answered and the reply to it. -/
def Exact (x : Exchange) (source : Nat → Nat) : Prop :=
  ∀ k a sample, x.answers[k]? = some a → a.sample = some sample →
    ∃ time, x.requests[source k]? = some ⟨time, a.name⟩ ∧ sample = a.time - time

/-- Of the interests that were sent before a reply, the one with this number is the only one that
its transfer has sent for the chunk. -/
structure IsOnly (requests : List Request) (a : Answer) (j : Nat) : Prop where
  opened : a.opened ≤ j
  sent : j < a.sent
  only : ∀ i time, a.opened ≤ i → i < a.sent → requests[i]? = some ⟨time, a.name⟩ → i = j

/-- A sample is the time since the only request for the chunk. -/
structure Measures (requests : List Request) (a : Answer) : Prop where
  sent : a.sent ≤ requests.length
  only : ∀ sample, a.sample = some sample →
    ∃ j time, requests[j]? = some ⟨time, a.name⟩ ∧ sample = a.time - time ∧ IsOnly requests a j

end Exchange

namespace Fetcher

/-- The sample that a wake gives. -/
def sampled? (f : Fetcher) (now : Nat) (w : Wake) : Option Nat :=
  ((f.taken? w).map Prod.fst).bind fun chunk =>
    (f.roundTrip.ack chunk now).toOption.bind Prod.fst

/-- Notes what a call has passed to the network and from it. -/
def noteExchange (x : Exchange) (f : Fetcher) (call : Call) (g : Fetcher) : Exchange :=
  match call with
  | .start now _ => if f.isBusy then x else x.start.send now (f.sends g)
  | .wake now w =>
    if f.isBusy then (x.receive now w (f.sampled? now w)).send now (f.sends g) else x
  | _ => x

end Fetcher

namespace Books

/-- No data is taken for a chunk any more: it has arrived, or lies behind the end. -/
def IsDone (b : Books) (i : Nat) : Prop :=
  b.received i = true ∨ b.received 0 = true ∧ b.size ≤ i

/-- To close the books takes and loses no chunk. -/
theorem isDone_settle (b : Books) (i : Nat) : b.settle.IsDone i ↔ b.IsDone i := by
  unfold settle
  split <;> rfl

/-- A chunk that is taken is done. -/
theorem isDone_enter_self (b : Books) (chunk : Nat) (bytes : ByteArray) :
    (b.enter chunk bytes).IsDone chunk := by
  rw [enter, isDone_settle]
  split
  · rename_i hchunk
    subst hchunk
    exact .inl (by simp [noteLength])
  · exact .inl (by simp [notePart])

/-- Nothing that is done is undone by what is taken. -/
theorem IsDone.enter {b : Books} {i : Nat} (h : b.IsDone i) {chunk : Nat} (bytes : ByteArray)
    (hnew : b.received chunk = false) : (b.enter chunk bytes).IsDone i := by
  rw [Books.enter, isDone_settle]
  split
  · rename_i hchunk
    subst hchunk
    -- The end is told by chunk 0. Until then only what has arrived is done.
    have hreceived : b.received i = true := h.resolve_right fun hbehind => by
      rw [hbehind.1] at hnew
      cases hnew
    by_cases hlast : i < (b.noteLength (announced bytes)).size
    · exact .inl (by simpa [noteLength, hreceived] using hlast)
    · exact .inr ⟨by simp [noteLength], Nat.le_of_not_lt hlast⟩
  · rcases h with hreceived | ⟨hzero, hbehind⟩
    · exact .inl (by simp [notePart, hreceived])
    · exact .inr ⟨by simp [notePart, hzero], hbehind⟩

end Books

/-- A list with one entry of a kind has it in one place. -/
theorem exists_place_of_filter {α : Type} {p : α → Bool} {l : List α} {a : α}
    (h : l.filter p = [a]) :
    ∃ j : Nat, l[j]? = some a ∧ ∀ (i : Nat) (b : α), l[i]? = some b → p b = true → i = j := by
  induction l with
  | nil => cases h
  | cons first rest ih =>
      by_cases hfirst : p first = true
      · rw [List.filter_cons_of_pos hfirst] at h
        obtain ⟨rfl, hrest⟩ := List.cons.inj h
        refine ⟨0, rfl, fun i b hb hp => ?_⟩
        cases i with
        | zero => rfl
        | succ i =>
            exact absurd hp (List.filter_eq_nil_iff.mp hrest b (List.mem_of_getElem? hb))
      · rw [List.filter_cons_of_neg hfirst] at h
        obtain ⟨j, hj, honly⟩ := ih h
        refine ⟨j + 1, hj, fun i b hb hp => ?_⟩
        cases i with
        | zero =>
            obtain rfl := Option.some.inj hb
            exact absurd hp hfirst
        | succ i => rw [honly i b hb hp]

namespace Exchange

section
variable {x : Exchange} {a : Answer} {now : Nat} {name : ChunkName}

/-! ### Notes -/

@[simp] theorem send_nil (x : Exchange) (now : Nat) : x.send now [] = x := by
  simp [send]

@[simp] theorem receive_requests (x : Exchange) (now : Nat) (w : Wake) (sample : Option Nat) :
    (x.receive now w sample).requests = x.requests := by
  unfold receive
  split <;> rfl

@[simp] theorem receive_opened (x : Exchange) (now : Nat) (w : Wake) (sample : Option Nat) :
    (x.receive now w sample).opened = x.opened := by
  unfold receive
  split <;> rfl

/-- A reply requests nothing. -/
theorem moments_receive (x : Exchange) (now : Nat) (w : Wake) (sample : Option Nat)
    (name : ChunkName) : (x.receive now w sample).moments name = x.moments name := by
  rw [moments, receive_requests, receive_opened, moments]

/-- A transfer that is started has requested nothing. -/
theorem moments_start (x : Exchange) (name : ChunkName) : x.start.moments name = [] := by
  simp [moments, start]

/-- A request is the latest one for its chunk. -/
theorem moments_send (hopened : x.opened ≤ x.requests.length) (i : Interest) :
    (x.send now [i]).moments name =
      if i.name = name then now :: x.moments name else x.moments name := by
  unfold moments send
  simp only [List.map_cons, List.map_nil, List.drop_append_of_le_length hopened,
    List.filter_append, List.map_append, List.reverse_append]
  by_cases hname : i.name = name
  · simp [hname]
  · simp [hname]

/-! ### Samples -/

/-- A chunk that was requested at one moment was requested once. -/
theorem exists_only {time : Nat} (h : x.moments name = [time]) :
    ∃ j, x.requests[j]? = some ⟨time, name⟩ ∧ x.opened ≤ j ∧
      ∀ i time', x.opened ≤ i → x.requests[i]? = some ⟨time', name⟩ → i = j := by
  have hmap := congrArg List.reverse h
  rw [moments, List.reverse_reverse] at hmap
  obtain ⟨r, hfilter, htime⟩ := List.map_eq_singleton_iff.mp hmap
  -- The one request is found among those of the last transfer, which start at `opened`.
  obtain ⟨j, hj, honly⟩ := exists_place_of_filter hfilter
  have hname : r.name = name := by
    have hmem : r ∈ (x.requests.drop x.opened).filter fun r => r.name = name := by
      rw [hfilter]
      exact List.mem_singleton_self r
    simpa using (List.mem_filter.mp hmem).2
  refine ⟨x.opened + j, ?_, Nat.le_add_right _ _, fun i time' hi hrequest => ?_⟩
  · rw [← List.getElem?_drop, hj, ← htime, ← hname]
  · have hplace : (x.requests.drop x.opened)[i - x.opened]? = some ⟨time', name⟩ := by
      rw [List.getElem?_drop, Nat.add_sub_cancel' hi, hrequest]
    have heq := honly _ _ hplace (by simp)
    omega

/-- What was sent stays where it was noted. -/
theorem Measures.append {requests : List Request} (h : Measures requests a) (more : List Request) :
    Measures (requests ++ more) a := by
  have hplace : ∀ j < a.sent, (requests ++ more)[j]? = requests[j]? :=
    fun j hj => List.getElem?_append_left (Nat.lt_of_lt_of_le hj h.sent)
  refine ⟨?_, fun sample hsample => ?_⟩
  · rw [List.length_append]
    exact Nat.le_trans h.sent (Nat.le_add_right _ _)
  · obtain ⟨j, time, hrequest, hvalue, honly⟩ := h.only sample hsample
    refine ⟨j, time, (hplace j honly.sent).trans hrequest, hvalue, honly.opened, honly.sent,
      fun i time' hi hsent hrequest' => ?_⟩
    exact honly.only i time' hi hsent ((hplace i hsent).symm.trans hrequest')

/-- A reply that is noted is the last one. -/
theorem mem_receive {w : Wake} {sample : Option Nat} (h : a ∈ (x.receive now w sample).answers) :
    a ∈ x.answers ∨
      ∃ r, w = .reply r ∧ a = ⟨now, r.name, x.opened, x.requests.length, sample⟩ := by
  cases w with
  | reply r =>
      rcases List.mem_append.mp h with hold | hnew
      · exact .inl hold
      · exact .inr ⟨r, rfl, List.mem_singleton.mp hnew⟩
  | _ => exact .inl h

end

end Exchange

namespace Fetcher

/-- The estimate is made of these samples. -/
def Made (settings : RoundTripSettings) (samples : List Nat) (r : RoundTrip) : Prop :=
  ∃ estimate outstanding multiplier,
    samples.foldlM RoundTrip.measure (.ofSettings settings) = .ok estimate ∧
      r = { estimate with outstanding, multiplier }

/-- What the notes say of a fetcher. -/
structure Fits (settings : RoundTripSettings) (x : Exchange) (f : Fetcher) : Prop where
  opened : x.opened ≤ x.requests.length
  made : Made settings x.samples f.roundTrip
  measures : ∀ a ∈ x.answers, Exchange.Measures x.requests a
  /-- While a transfer runs, the entry for a chunk that may still be taken tells when it was
  requested. -/
  entries : f.phase = .downloading → ∀ t, f.transfer = some t → ∀ i, ¬(f.books t).IsDone i →
    f.roundTrip.outstanding.lookup i = RoundTrip.entryFor (x.moments ⟨t.name, i⟩)

section
variable {s : FetchSettings} {settings : RoundTripSettings} {f g : Fetcher} {x : Exchange}
  {t : Transfer} {r r' : RoundTrip} {name : String} {now : Nat} {w : Wake} {gain : Option Nat}
  {sent : List Interest}

/-! ### What happens to the estimate -/

/-- Of all that happens to an estimate only samples go into it. -/
theorem Made.trip {samples : List Nat} (h : Made settings samples r)
    (htrip : Trip r name now gain sent r') :
    Made settings
      (samples ++ (gain.bind fun chunk => (r.ack chunk now).toOption.bind Prod.fst).toList) r' := by
  obtain ⟨estimate, outstanding, multiplier, hmade, rfl⟩ := h
  cases htrip with
  | still => exact ⟨estimate, outstanding, multiplier, (List.append_nil samples).symm ▸ hmade, rfl⟩
  | backedOff =>
      rw [Option.bind_none, Option.toList_none, List.append_nil]
      exact ⟨estimate, outstanding, _, hmade, rfl⟩
  | sent =>
      rw [Option.bind_none, Option.toList_none, List.append_nil]
      exact ⟨estimate, _, multiplier, hmade, rfl⟩
  | acked hack =>
      rw [Option.bind_some, hack]
      obtain ⟨-, ⟨rfl, rfl⟩ | ⟨sample, m, rfl, hm, rfl⟩⟩ := RoundTrip.ack_cases hack
      · show Made settings (samples ++ []) _
        rw [List.append_nil]
        exact ⟨estimate, _, multiplier, hmade, rfl⟩
      · -- The waiting requests and the backoff have no part in a measurement.
        rw [RoundTrip.measure_with] at hm
        obtain ⟨next, hnext, rfl⟩ := Checked.map_eq_ok_iff.mp hm
        refine ⟨next, _, next.multiplier, ?_, rfl⟩
        show (samples ++ [sample]).foldlM RoundTrip.measure _ = _
        rw [List.foldlM_append, hmade]
        exact Checked.bind_eq_ok_iff.mpr
          ⟨estimate, rfl, Checked.bind_eq_ok_iff.mpr ⟨next, hnext, rfl⟩⟩

/-- The requests that are out do not matter for what the estimate is made of. -/
theorem Made.forget {samples : List Nat} (h : Made settings samples r) :
    Made settings samples r.forget := by
  obtain ⟨estimate, _, multiplier, hmade, rfl⟩ := h
  exact ⟨estimate, [], multiplier, hmade, rfl⟩

/-- The entry for a chunk goes on telling when the chunk was requested, until data is taken for it.
-/
theorem lookup_trip {i : Nat} (hopened : x.opened ≤ x.requests.length)
    (hentry : r.outstanding.lookup i = RoundTrip.entryFor (x.moments ⟨name, i⟩))
    (htrip : Trip r name now gain sent r') (hgain : gain ≠ some i) :
    r'.outstanding.lookup i = RoundTrip.entryFor ((x.send now sent).moments ⟨name, i⟩) := by
  cases htrip with
  | still => rwa [Exchange.send_nil]
  | backedOff => rwa [Exchange.send_nil]
  | @sent chunk =>
      rw [RoundTrip.lookup_sent, Exchange.moments_send hopened]
      by_cases hi : i = chunk
      · subst hi
        rw [if_pos rfl, if_pos rfl, RoundTrip.entryFor_cons, hentry]
      · have hname : (⟨name, chunk⟩ : ChunkName) ≠ ⟨name, i⟩ := fun h =>
          hi (ChunkName.mk.inj h).2.symm
        rw [if_neg hi, if_neg hname, hentry]
  | acked hack =>
      rw [RoundTrip.lookup_ack hack, if_neg fun hi => hgain (congrArg some hi.symm),
        Exchange.send_nil, hentry]

/-- A wake sends what it adds to the outbox. -/
theorem handle_trip (ht : f.transfer = some t) (hg : f.handle now w = .ok g) :
    Trip f.roundTrip t.name now ((f.taken? w).map Prod.fst) (f.sends g) g.roundTrip := by
  obtain ⟨sent, hsent, htrip⟩ := (handle_beat ht hg).trip
  have houtbox : g.outbox = f.outbox ++ sent := hsent
  rw [sends, houtbox, List.drop_left]
  exact htrip

/-- A transfer is started with a fresh record of the requests that are out. -/
theorem begin_trip (f : Fetcher) (now : Nat) (segment : Segment) :
    Trip f.roundTrip.forget segment.name now none (f.sends (f.begin now segment))
      (f.begin now segment).roundTrip := by
  obtain ⟨sent, hsent, htrip⟩ := (begin_asks f now segment).trip
  have houtbox : (f.begin now segment).outbox = f.outbox ++ sent := hsent
  rw [sends, houtbox, List.drop_left]
  exact htrip

/-! ### What the notes say -/

/-- Only a reply gives a sample. -/
theorem samples_receive (x : Exchange) (f : Fetcher) (now : Nat) (w : Wake) :
    (x.receive now w (f.sampled? now w)).samples = x.samples ++ (f.sampled? now w).toList := by
  cases w with
  | reply r =>
      show (x.answers ++ [_]).filterMap _ = _
      rw [List.filterMap_append]
      cases f.sampled? now (.reply r) <;> rfl
  | _ => exact (List.append_nil _).symm

/-- A sample is measured from the only request that the transfer has sent for the chunk. -/
theorem Fits.measures_reply (h : Fits settings x f) (hphase : f.phase = .downloading)
    (ht : f.transfer = some t) {reply : Reply} :
    Exchange.Measures x.requests
      ⟨now, reply.name, x.opened, x.requests.length, f.sampled? now (.reply reply)⟩ := by
  refine ⟨Nat.le_refl _, fun sample hsample => ?_⟩
  obtain ⟨chunk, hgain, hsampled⟩ := Option.bind_eq_some_iff.mp hsample
  obtain ⟨⟨_, next⟩, hack, rfl⟩ := Checked.exists_of_bind_toOption hsampled
  obtain ⟨part, htaken, rfl⟩ := Option.map_eq_some_iff.mp hgain
  have hbooks : f.books? = some (f.books t) := congrArg (Option.map f.books) ht
  obtain ⟨-, hsize, hnew, name, hreply, hsegment, hchunk⟩ := of_taken? hbooks htaken
  obtain rfl := Wake.reply.inj hreply
  obtain rfl : name = ⟨t.name, part.1⟩ := by
    cases name
    cases hsegment
    cases hchunk
    rfl
  -- A chunk whose data is taken has not arrived, and lies inside the table.
  have hopen : ¬(f.books t).IsDone part.1 := by
    rintro (hreceived | ⟨-, hbehind⟩)
    · rw [hnew] at hreceived
      cases hreceived
    · omega
  have hanswer := RoundTrip.fst_ack hack (h.entries hphase t ht part.1 hopen)
  obtain ⟨time, hmoments, hvalue⟩ := RoundTrip.sample?_eq_some_iff.mp hanswer.symm
  obtain ⟨j, hrequest, hopened, honly⟩ := Exchange.exists_only hmoments
  have hlt : j < x.requests.length := (List.getElem?_eq_some_iff.mp hrequest).1
  exact ⟨j, time, hrequest, hvalue, hopened, hlt,
    fun i time' hi _ hrequest' => honly i time' hi hrequest'⟩

/-- What is taken is done, and leaves done what was done before. -/
theorem of_not_isDone {b : Books} {i : Nat} (hbooks : f.books? = some b)
    (hopen : ¬(b.after (f.taken? w)).IsDone i) :
    ¬b.IsDone i ∧ (f.taken? w).map Prod.fst ≠ some i := by
  cases htaken : f.taken? w with
  | none =>
      rw [htaken] at hopen
      exact ⟨hopen, fun hgain => nomatch hgain⟩
  | some part =>
      rw [htaken] at hopen
      obtain ⟨-, -, hnew, -⟩ := of_taken? hbooks htaken
      refine ⟨fun hdone => hopen (hdone.enter part.2 hnew), fun hgain => hopen ?_⟩
      obtain rfl := Option.some.inj hgain
      exact b.isDone_enter_self part.1 part.2

/-- What a wake of a running transfer does, fits what is noted of it. -/
theorem Fits.wake (h : Fits settings x f) (hphase : f.phase = .downloading)
    (ht : f.transfer = some t) (hg : f.handle now w = .ok g) :
    Fits settings ((x.receive now w (f.sampled? now w)).send now (f.sends g)) g := by
  have htrip := handle_trip ht hg
  refine ⟨?opened, ?made, ?measures, ?entries⟩
  case opened =>
    simp only [Exchange.send, Exchange.receive_opened, Exchange.receive_requests,
      List.length_append]
    exact Nat.le_trans h.opened (Nat.le_add_right _ _)
  case made =>
    show Made settings (x.receive now w (f.sampled? now w)).samples g.roundTrip
    rw [samples_receive]
    exact h.made.trip htrip
  case measures =>
    intro a ha
    show Exchange.Measures ((x.receive now w _).requests ++ _) a
    rw [Exchange.receive_requests]
    refine Exchange.Measures.append ?_ _
    rcases Exchange.mem_receive ha with hold | ⟨reply, rfl, rfl⟩
    · exact h.measures a hold
    · exact h.measures_reply hphase ht
  case entries =>
    intro _ u hu i hopen
    have hbooks : f.books? = some (f.books t) := congrArg (Option.map f.books) ht
    have hafter : g.books u = (f.books t).after (f.taken? w) :=
      Option.some.inj ((congrArg (Option.map g.books) hu).symm.trans (handle_books hbooks hg))
    have hname : u.name = t.name :=
      (congrArg Books.name hafter).trans ((f.books t).after_fixed (f.taken? w)).1
    rw [hafter] at hopen
    -- A chunk that is still to come was so before the wake, and was not taken in it.
    have hkept := of_not_isDone hbooks hopen
    rw [hname]
    refine lookup_trip ?_ ?_ htrip hkept.2
    · rw [Exchange.receive_opened, Exchange.receive_requests]
      exact h.opened
    · rw [Exchange.moments_receive]
      exact h.entries hphase t ht i hkept.1

/-- What a start does, fits what is noted of it. -/
theorem Fits.start (h : Fits settings x f) (now : Nat) (segment : Segment) :
    Fits settings (x.start.send now (f.sends (f.begin now segment))) (f.begin now segment) := by
  have htrip := begin_trip f now segment
  refine ⟨?opened, ?made, ?measures, ?entries⟩
  case opened =>
    show x.requests.length ≤ (x.requests ++ _).length
    rw [List.length_append]
    exact Nat.le_add_right _ _
  case made =>
    have hmade := h.made.forget.trip htrip
    rwa [Option.bind_none, Option.toList_none, List.append_nil] at hmade
  case measures => exact fun a ha => (h.measures a ha).append _
  case entries =>
    intro _ u hu i _
    have hname : u.name = segment.name := congrArg Books.name
      (Option.some.inj ((congrArg (Option.map _) hu).symm.trans (f.books?_begin now segment)))
    rw [hname]
    -- A transfer starts without waiting requests, whatever the one before had left.
    refine lookup_trip (Nat.le_refl _) ?_ htrip (fun hgain => nomatch hgain)
    rw [Exchange.moments_start]
    rfl

/-- The rest of a fetcher does not matter for the notes. -/
theorem Fits.keep (h : Fits settings x f) (hroundTrip : g.roundTrip = f.roundTrip)
    (hphase : g.phase = f.phase) (htransfer : g.transfer = f.transfer) : Fits settings x g := by
  refine ⟨h.opened, hroundTrip ▸ h.made, h.measures, fun hrunning u hu i hopen => ?_⟩
  rw [hroundTrip]
  exact h.entries (hphase ▸ hrunning) u (htransfer ▸ hu) i hopen

/-- Without a running transfer the entries do not matter. -/
theorem Fits.still (h : Fits settings x f) (hphase : g.phase ≠ .downloading)
    (hmade : Made settings x.samples g.roundTrip) : Fits settings x g :=
  ⟨h.opened, hmade, h.measures, fun hrunning => absurd hrunning hphase⟩

/-- **Step lemma**: what a call does, fits what is noted of it. -/
theorem Fits.perform (h : Fits settings x f) (horder : f.InOrder s) {call : Call}
    (hg : f.perform call = .ok g) : Fits settings (noteExchange x f call g) g := by
  cases call with
  | start now segment =>
      rcases start_cases hg with ⟨hbusy, rfl⟩ | ⟨hidle, rfl⟩
      · rw [noteExchange, if_pos hbusy]
        exact h
      · rw [noteExchange, if_neg (by simp [hidle])]
        exact h.start now segment
  | wake now w =>
      rcases wake_cases horder hg with ⟨hidle, rfl⟩ | ⟨hbusy, hphase, ⟨t, ht⟩, hhandled⟩
      · rw [noteExchange, if_neg (by simp [hidle])]
        exact h
      · rw [noteExchange, if_pos hbusy]
        exact h.wake hphase ht hhandled
  | abort =>
      obtain rfl := Except.ok.inj hg
      exact h.still f.phase_abort_ne h.made
  | reset =>
      obtain rfl := Except.ok.inj hg
      exact h.still (by simp [Fetcher.reset]) h.made.forget
  | _ =>
      obtain ⟨hphase, htransfer, hroundTrip, -⟩ := perform_errand hg trivial
      exact h.keep hroundTrip hphase htransfer

/-- **Run lemma**: what a life does, fits what is noted of it. -/
theorem watch_fits {id : Nat} (hnew : ofSettings id s = .ok f) {calls : List Call}
    (hg : f.watch noteExchange {} calls = .ok (x, g)) : Fits s.roundTrip x g := by
  refine watch_preserves (Fits s.roundTrip) (fun _ => True) ?_ (fun _ _ => trivial)
    (inOrder_ofSettings hnew) ?_ hg
  · intro x f call g horder _ _ hcall h
    exact h.perform horder hcall
  · obtain ⟨window, -, h⟩ := Checked.bind_eq_ok_iff.mp hnew
    obtain rfl := Except.ok.inj h
    exact ⟨Nat.le_refl _, ⟨_, [], 1, rfl, rfl⟩, fun _ ha => (nomatch ha),
      fun hrunning => nomatch hrunning⟩

/-- **What the samples measure.** Take a new fetcher and any calls on it, over any number of
transfers, and note the interests and the replies. The estimate is made of the samples that were
noted. Let the replies be answers to interests. Then a sample is the time since the only interest
that the transfer had sent for the chunk; and this interest is the one that was answered, unless the
reply is an answer to an interest of an earlier transfer. So where no such reply arrives, every
sample is the time between an interest and the reply to it. -/
theorem samples_measure {id : Nat} (hnew : ofSettings id s = .ok f) {calls : List Call}
    (hg : f.watch noteExchange {} calls = .ok (x, g)) :
    (∃ estimate outstanding multiplier,
        x.samples.foldlM RoundTrip.measure (.ofSettings s.roundTrip) = .ok estimate ∧
          g.roundTrip = { estimate with outstanding, multiplier }) ∧
      ∀ source, x.Answered source →
        (∀ k a sample, x.answers[k]? = some a → a.sample = some sample →
          ∃ j time, x.requests[j]? = some ⟨time, a.name⟩ ∧ sample = a.time - time ∧
            Exchange.IsOnly x.requests a j ∧ (source k = j ∨ source k < a.opened)) ∧
        ((∀ k a, x.answers[k]? = some a → a.opened ≤ source k) → x.Exact source) := by
  have hfits := watch_fits hnew hg
  refine ⟨hfits.made, fun source hsource => ?_⟩
  have hmeasure : ∀ k a sample, x.answers[k]? = some a → a.sample = some sample →
      ∃ j time, x.requests[j]? = some ⟨time, a.name⟩ ∧ sample = a.time - time ∧
        Exchange.IsOnly x.requests a j ∧ (source k = j ∨ source k < a.opened) := by
    intro k a sample ha hsample
    obtain ⟨j, time, hrequest, hvalue, honly⟩ :=
      (hfits.measures a (List.mem_of_getElem? ha)).only sample hsample
    obtain ⟨hsent, time', hanswered⟩ := hsource k a ha
    refine ⟨j, time, hrequest, hvalue, honly, ?_⟩
    -- The request that was answered is of this transfer or of an earlier one.
    by_cases hopened : source k < a.opened
    · exact .inr hopened
    · exact .inl (honly.only (source k) time' (Nat.le_of_not_lt hopened) hsent hanswered)
  refine ⟨hmeasure, fun hpresent k a sample ha hsample => ?_⟩
  obtain ⟨j, time, hrequest, hvalue, -, hsame | hearlier⟩ := hmeasure k a sample ha hsample
  · exact ⟨time, hsame ▸ hrequest, hvalue⟩
  · exact absurd (hpresent k a ha) (Nat.not_le_of_lt hearlier)

/-- Chunk 1 is requested twice, and chunk 0 once. Both arrive. -/
def sampledCalls : List Call :=
  [.start 0 sampleSegment, .wake 1 .tick, .wake 500000001 (.timer 1), .wake 500000002 .tick,
    dataCall 600000000 0 ⟨#[0, 0, 0, 4]⟩, dataCall 600000001 1 ⟨#[7, 7]⟩]

/-- The reply for chunk 0 is an answer to the first interest, and its sample is the time since. The
reply for chunk 1 is an answer to the last interest, and gives no sample. -/
theorem samples_measure_sample :
    ∃ f x g, ofSettings 0 lifeSettings = .ok f ∧
      f.watch noteExchange {} sampledCalls = .ok (x, g) ∧ x.AnsweredOnce (2 * ·) ∧
      x.samples = [600000000] ∧ x.Exact (2 * ·) := by
  have hvalue : ((ofSettings 0 lifeSettings).toOption.bind fun f =>
      (f.watch noteExchange {} sampledCalls).toOption.map fun r => (r.1.requests, r.1.answers)) =
      some ([⟨0, ⟨sampleSegment.name, 0⟩⟩, ⟨1, ⟨sampleSegment.name, 1⟩⟩,
          ⟨500000002, ⟨sampleSegment.name, 1⟩⟩],
        [⟨600000000, ⟨sampleSegment.name, 0⟩, 0, 3, some 600000000⟩,
          ⟨600000001, ⟨sampleSegment.name, 1⟩, 0, 3, none⟩]) := by decide +kernel
  obtain ⟨f, hnew, hvalue⟩ := Checked.exists_of_bind_toOption hvalue
  obtain ⟨⟨x, g⟩, hg, hvalues⟩ := Checked.exists_of_map_toOption hvalue
  obtain ⟨hrequests, hanswers⟩ : x.requests = _ ∧ x.answers = _ := Prod.mk.inj hvalues
  have hanswered : x.Answered (2 * ·) := by
    intro k a ha
    rw [hanswers] at ha
    rw [hrequests]
    match k with
    | 0 =>
        obtain rfl := Option.some.inj ha
        exact ⟨by decide, 0, rfl⟩
    | 1 =>
        obtain rfl := Option.some.inj ha
        exact ⟨by decide, 500000002, rfl⟩
    | k + 2 => cases ha
  have hpresent : ∀ k a, x.answers[k]? = some a → a.opened ≤ 2 * k := by
    intro k a ha
    have hmem := List.mem_of_getElem? ha
    rw [hanswers] at hmem
    have hopened : a.opened = 0 := by
      rcases List.mem_pair.mp hmem with rfl | rfl <;> rfl
    omega
  obtain ⟨-, hmeasure⟩ := samples_measure hnew hg
  obtain ⟨-, hexact⟩ := hmeasure _ hanswered
  refine ⟨f, x, g, hnew, hg, ⟨hanswered, fun k l hlt _ => ?_⟩, ?_, hexact hpresent⟩
  · show 2 * k ≠ 2 * l
    omega
  · rw [Exchange.samples, hanswers]
    rfl

/-- A transfer is given up, and one of the same segment is started after 150 ms. The answer to the
interest of the first one arrives after 200 ms. -/
def lateCalls : List Call :=
  [.start 0 sampleSegment, .abort, .reset, .start 150000000 sampleSegment,
    dataCall 200000000 0 ⟨#[0, 0, 0, 4]⟩]

/-- The network has answered the first interest after 200 ms and no other one, and the estimate has
taken a sample of 50 ms. -/
theorem late_reply_sampled :
    ∃ f x g, ofSettings 0 lifeSettings = .ok f ∧
      f.watch noteExchange {} lateCalls = .ok (x, g) ∧ x.AnsweredOnce (fun _ => 0) ∧
      x.samples = [50000000] ∧ g.roundTrip.mean = some 50000000 ∧ ¬x.Exact (fun _ => 0) := by
  have hvalue : ((ofSettings 0 lifeSettings).toOption.bind fun f =>
      (f.watch noteExchange {} lateCalls).toOption.map fun r =>
        (r.2.roundTrip.mean, r.1.requests, r.1.answers)) =
      some (some 50000000,
        [⟨0, ⟨sampleSegment.name, 0⟩⟩, ⟨150000000, ⟨sampleSegment.name, 0⟩⟩],
        [⟨200000000, ⟨sampleSegment.name, 0⟩, 1, 2, some 50000000⟩]) := by decide +kernel
  obtain ⟨f, hnew, hvalue⟩ := Checked.exists_of_bind_toOption hvalue
  obtain ⟨⟨x, g⟩, hg, hvalues⟩ := Checked.exists_of_map_toOption hvalue
  obtain ⟨hmean, hpair⟩ := Prod.mk.inj hvalues
  obtain ⟨hrequests, hanswers⟩ : x.requests = _ ∧ x.answers = _ := Prod.mk.inj hpair
  refine ⟨f, x, g, hnew, hg, ⟨fun k a ha => ?_, fun k l hlt hl => ?_⟩, ?_, hmean, fun hexact => ?_⟩
  · rw [hanswers] at ha
    rw [hrequests]
    obtain rfl := List.mem_singleton.mp (List.mem_of_getElem? ha)
    exact ⟨Nat.zero_lt_two, 0, rfl⟩
  · -- There is one reply only.
    have hone : x.answers.length = 1 := congrArg List.length hanswers
    omega
  · rw [Exchange.samples, hanswers]
    rfl
  · obtain ⟨time, hrequest, hsample⟩ := hexact 0 _ 50000000 (by rw [hanswers]; rfl) rfl
    rw [hrequests] at hrequest
    obtain ⟨rfl, -⟩ := Exchange.Request.mk.inj (Option.some.inj hrequest)
    exact absurd hsample (by decide)

end

end Fetcher

end LayerCast
