import LayerCast.Proofs.Pool.OneBatch

/-!
# `LayerCast.Proofs.Pool.BatchEnd`: the end of a batch is told once

The owner of a pool keeps a log with a note for every batch that was queued: what the pool has told
since, which finished layers were taken, and whether the batch was given up by a stop or by a
salvage that found something. A batch is over when it was given up or when its end was told. The
next one is queued only then, and a batch has at least one layer (`supervise`).

`Supervised` relates the log to the pool. While the latest batch is not over, the pool owes its end,
and its layers are in the pool, or were taken, or were named as shed. Once it is over, the pool has
nothing to do and nothing to tell. `batch_ends_once` reads off what the owner can rely on.
-/

set_option autoImplicit false

namespace LayerCast.Pool

open scoped List

/-! ### The log of an owner -/

/-- What the owner of a pool has noted about a batch. -/
structure Note where
  batch : List Segment
  /-- What the pool has told since the batch was queued, the oldest first. -/
  told : List PoolEvent := []
  /-- The finished layers that were taken since then. -/
  taken : List Segment := []
  /-- Whether the batch was ended by a stop or by a salvage. -/
  givenUp : Bool := false

namespace Note

/-- Whether the batch has come to its end. -/
def isOver (note : Note) : Bool := note.givenUp || .batchComplete ∈ note.told

/-- The layers that were named as rejected, or as shed with one that was. -/
def shed (note : Note) : List Segment := note.told.flatMap fun e => reported (some e)

/-- The pool has told something, or nothing. -/
def hear (note : Note) (e : Option PoolEvent) : Note := { note with told := note.told ++ e.toList }

/-- Finished layers were taken. -/
def take (note : Note) (ds : List Delivery) : Note :=
  { note with taken := note.taken ++ ds.map Delivery.segment }

/-- The batch is given up, if it is not over. -/
def giveUp (note : Note) : Note := { note with givenUp := !note.isOver || note.givenUp }

end Note

/-- Whether the latest batch is not over. The log has the latest batch first. -/
def isOut : List Note → Bool
  | [] => false
  | note :: _ => !note.isOver

/-- Carries out a call and notes what it comes to. A batch is queued only if it has a layer and no
other one is out. -/
def supervise (p : Pool) (log : List Note) : Call → Checked (List Note × Pool)
  | .enqueue now batch =>
    if batch = [] ∨ isOut log then .ok (log, p)
    else .ok ({ batch } :: log, p.enqueue now batch)
  | .poll now id w => do
    let (e, q) ← p.poll now id w
    return (log.modifyHead (·.hear e), q)
  | .takeFinished =>
    let (ds, q) := p.takeFinished
    .ok (log.modifyHead (·.take ds), q)
  | .salvage => do
    let (s, q) ← p.salvage
    return (if s.isEmpty then log else log.modifyHead Note.giveUp, q)
  | .stop => .ok (log.modifyHead Note.giveUp, p.stop)
  | .sent closed => .ok (log, p.afterSent closed)

/-- Carries out calls one after another. -/
def superviseAll (p : Pool) (log : List Note) : List Call → Checked (List Note × Pool)
  | [] => .ok (log, p)
  | call :: rest => do
    let (log, p) ← p.supervise log call
    p.superviseAll log rest

/-! ### What the log says about the pool -/

/-- The end of the batch was told last if at all, and not after the batch was given up. -/
structure Note.InOrder (note : Note) : Prop where
  last : .batchComplete ∉ note.told.dropLast
  given : note.givenUp = true → .batchComplete ∉ note.told

/-- A pool and the log of its owner. -/
structure Supervised (log : List Note) (p : Pool) : Prop where
  settled : p.Settled
  staffed : 0 < p.size
  own : p.TellsOwn
  working : p.Working
  owing : isOut log = true → p.Owing
  resting : isOut log = false → p.IsDone ∧ p.events = []
  past : ∀ note ∈ log.tail, note.isOver = true
  inOrder : ∀ note ∈ log, note.InOrder
  /-- The layers of a batch that is out are in the pool, or were taken, or were named as shed. -/
  kept : ∀ note ∈ log.head?, note.isOver = false →
    note.batch <+~ p.contents ++ note.taken ++ note.shed

variable {p q : Pool} {log : List Note}

/-- A new pool with an empty log. -/
theorem supervised_ofSettings {count : Nat} {settings : FetchSettings}
    (h : Pool.ofSettings count settings = .ok (.ok p)) : Supervised [] p := by
  have hone := oneBatch_ofSettings h
  obtain ⟨hempty, hsilent⟩ := hone.resting rfl
  exact {
    settled := hone.settled
    staffed := hone.staffed
    own := hone.own
    working := hone.working
    owing := fun hout => nomatch hout
    resting := fun _ => ⟨(contents_eq_nil_iff.mp hempty).1, hsilent⟩
    past := fun _ hnote => nomatch hnote
    inOrder := fun _ hnote => nomatch hnote
    kept := fun _ hnote => nomatch hnote }

/-- While a batch is out, it is the first one of the log and not over. -/
theorem exists_of_isOut (hout : isOut log = true) :
    ∃ note earlier, log = note :: earlier ∧ note.isOver = false := by
  cases log with
  | nil => cases hout
  | cons note earlier => exact ⟨note, earlier, rfl, by simpa [isOut] using hout⟩

/-- A batch that is not over was not given up, and its end was not told. -/
theorem Note.isOver_eq_false_iff {note : Note} :
    note.isOver = false ↔ note.givenUp = false ∧ .batchComplete ∉ note.told := by
  simp [Note.isOver]

/-- A pool with the same layers in the same places goes with the same log. -/
theorem Supervised.same (h : Supervised log p) (hq : q.Settled) (hsize : q.size = p.size)
    (hcarried : q.carried = p.carried) (hqueue : q.queue = p.queue)
    (hfinished : q.finished = p.finished) (hevents : q.events = p.events) :
    Supervised log q where
  settled := hq
  staffed := hsize ▸ h.staffed
  own := by
    rw [TellsOwn, IsDone, hevents, hqueue, hcarried]
    exact h.own
  working := by
    rw [Working, hqueue, hcarried]
    exact h.working
  owing := by
    rw [Owing, hcarried, hevents]
    exact h.owing
  resting := by
    rw [IsDone, hevents, hqueue, hcarried]
    exact h.resting
  past := h.past
  inOrder := h.inOrder
  kept := by
    rw [contents, hqueue, hcarried, arrived_of_eq hfinished]
    exact h.kept

/-- Without a batch that is out, every batch of the log is over. -/
theorem Supervised.isOver (h : Supervised log p) (hout : isOut log = false) :
    ∀ note ∈ log, note.isOver = true := by
  intro note hnote
  cases log with
  | nil => cases hnote
  | cons latest earlier =>
      rcases List.mem_cons.mp hnote with rfl | hearlier
      · simpa [isOut] using hout
      · exact h.past note hearlier

/-! ### Queuing -/

/-- A batch is queued while none is out. -/
theorem Supervised.enqueue (h : Supervised log p) (hout : isOut log = false) (now : Nat)
    {batch : List Segment} (hbatch : batch ≠ []) :
    Supervised ({ batch } :: log) (p.enqueue now batch) := by
  obtain ⟨-, hsilent⟩ := h.resting hout
  obtain ⟨hsettled, hcontents⟩ := enqueue_spec h.settled now batch
  have hcarried := enqueue_carried h.settled h.staffed now hbatch
  exact {
    settled := hsettled
    staffed := by
      rw [size_enqueue]
      exact h.staffed
    own := .inl ((enqueue_events p now batch).trans hsilent)
    working := fun _ => hcarried
    owing := fun _ => .inl hcarried
    resting := fun hover => nomatch hover
    past := h.isOver hout
    inOrder := List.forall_mem_cons.mpr
      ⟨⟨List.not_mem_nil, fun hgiven => nomatch hgiven⟩, h.inOrder⟩
    -- The log starts anew, so that all of the batch is still in the pool.
    kept := by
      rintro note hnote -
      obtain rfl := Option.some.inj (Option.mem_def.mp hnote)
      show batch <+~ (p.enqueue now batch).contents ++ [] ++ []
      rw [List.append_nil, List.append_nil]
      exact (List.sublist_append_left batch p.contents).subperm.trans hcontents.symm.subperm }

/-! ### Turns -/

/-- To hear nothing changes no note. -/
theorem Note.hear_none (note : Note) : note.hear none = note := by
  simp [Note.hear]

/-- To hear nothing changes no log. -/
theorem modifyHead_hear_none (log : List Note) : log.modifyHead (·.hear none) = log := by
  cases log with
  | nil => rfl
  | cons note earlier => simp [Note.hear_none]

/-- What is heard of a batch that is out stands behind all that was heard before. -/
theorem Note.InOrder.hear {note : Note} (hover : note.isOver = false) (h : note.InOrder)
    (e : Option PoolEvent) : (note.hear e).InOrder := by
  obtain ⟨hgiven, hnot⟩ := Note.isOver_eq_false_iff.mp hover
  refine ⟨?_, fun hgivenUp => ?_⟩
  · cases e with
    | none =>
        rw [Note.hear_none]
        exact h.last
    | some e =>
        show .batchComplete ∉ (note.told ++ [e]).dropLast
        rwa [List.dropLast_concat]
  · exact absurd (hgiven.symm.trans hgivenUp) Bool.false_ne_true

/-- A batch that was out is over when its end is heard. -/
theorem Note.isOver_hear {note : Note} (hover : note.isOver = false) (e : Option PoolEvent) :
    (note.hear e).isOver = true ↔ e = some .batchComplete := by
  obtain ⟨hgiven, hnot⟩ := Note.isOver_eq_false_iff.mp hover
  show (note.givenUp || decide (.batchComplete ∈ note.told ++ e.toList)) = true ↔ _
  rw [hgiven, Bool.false_or, decide_eq_true_iff, List.mem_append, Option.mem_toList]
  exact or_iff_right hnot

/-- Without a batch that is out nothing is told. -/
theorem Supervised.silent (h : Supervised log p) (hout : isOut log = false)
    {now id : Nat} {w : Wake} {e : Option PoolEvent} (hpoll : p.poll now id w = .ok (e, q)) :
    e = none := by
  obtain ⟨hdone, hsilent⟩ := h.resting hout
  exact ((poll_turn h.settled hpoll).2.of_done hdone hsilent).1

/-- A turn is noted with the batch that is out. -/
theorem Supervised.poll (h : Supervised log p) {now id : Nat} {w : Wake} {e : Option PoolEvent}
    (hpoll : p.poll now id w = .ok (e, q)) : Supervised (log.modifyHead (·.hear e)) q := by
  obtain ⟨hq, hturn⟩ := poll_turn h.settled hpoll
  obtain ⟨hown, hend⟩ := h.own.turn hq hturn
  have hstaffed : 0 < q.size := (size_poll hpoll).symm ▸ h.staffed
  have hmoved := hturn.contents_perm
  cases hout : isOut log with
  | false =>
      obtain ⟨hdone, hsilent⟩ := h.resting hout
      obtain ⟨rfl, hevents⟩ := hturn.of_done hdone hsilent
      rw [modifyHead_hear_none]
      exact {
        settled := hq
        staffed := hstaffed
        own := hown
        working := hturn.working h.working
        owing := fun hyes => absurd (hout.symm.trans hyes) Bool.false_ne_true
        resting := fun _ => ⟨hdone.turn hturn, hevents⟩
        past := h.past
        inOrder := h.inOrder
        kept := fun note hnote hrunning => by
          have hover := h.isOver hout note (List.mem_of_mem_head? hnote)
          exact absurd (hrunning.symm.trans hover) Bool.false_ne_true }
  | true =>
      obtain ⟨note, earlier, rfl, hover⟩ := exists_of_isOut hout
      have hnext : isOut ((note.hear e) :: earlier) = false ↔ e = some .batchComplete := by
        rw [isOut, Bool.not_eq_false', Note.isOver_hear hover]
      exact {
        settled := hq
        staffed := hstaffed
        own := hown
        working := hturn.working h.working
        owing := fun hyes => hturn.owing hq (h.owing hout) fun he =>
          absurd ((hnext.mpr he).symm.trans hyes) Bool.false_ne_true
        resting := fun hno => by
          obtain rfl := hnext.mp hno
          exact ⟨hend rfl, hturn.events_of_complete⟩
        past := h.past
        inOrder := by
          obtain ⟨hnote, hearlier⟩ := List.forall_mem_cons.mp h.inOrder
          exact List.forall_mem_cons.mpr ⟨hnote.hear hover e, hearlier⟩
        kept := by
          rintro _ hnote -
          obtain rfl := Option.some.inj (Option.mem_def.mp hnote)
          refine (h.kept note rfl hover).trans (List.Perm.subperm ?_)
          -- What the turn takes out of the pool is what it names.
          have hshed : (note.hear e).shed = note.shed ++ reported e := by
            cases e <;> simp [Note.shed, Note.hear, reported]
          rw [hshed, List.perm_iff_count]
          intro s
          have hcount := hmoved.count_eq s
          simp only [Note.hear, List.count_append] at hcount ⊢
          omega }

/-! ### Taking and giving up -/

/-- Finished layers are taken, and noted with the latest batch. -/
theorem Supervised.takeFinished (h : Supervised log p) :
    Supervised (log.modifyHead (·.take p.takeFinished.1)) p.takeFinished.2 := by
  obtain ⟨hsettled, hmoved⟩ := takeFinished_spec h.settled
  cases log with
  | nil =>
      exact ⟨hsettled, h.staffed, h.own, h.working, h.owing, h.resting, h.past, h.inOrder,
        fun _ hnote => nomatch hnote⟩
  | cons note earlier =>
      exact {
        settled := hsettled
        staffed := h.staffed
        own := h.own
        working := h.working
        owing := h.owing
        resting := h.resting
        past := h.past
        inOrder := by
          obtain ⟨hnote, hearlier⟩ := List.forall_mem_cons.mp h.inOrder
          exact List.forall_mem_cons.mpr ⟨⟨hnote.last, hnote.given⟩, hearlier⟩
        kept := by
          rintro _ hnote hrunning
          obtain rfl := Option.some.inj (Option.mem_def.mp hnote)
          refine (h.kept note rfl hrunning).trans (List.Perm.subperm ?_)
          rw [List.perm_iff_count]
          intro s
          -- What leaves the pool enters the note, and nothing else moves.
          have hcount := hmoved.count_eq s
          simp only [Note.take, Note.shed, List.count_append] at hcount ⊢
          omega }

/-- A batch that is given up is over, and its end is not told. A batch that was over stays as it
was. -/
theorem Note.giveUp_spec {note : Note} (h : note.InOrder) :
    note.giveUp.isOver = true ∧ note.giveUp.InOrder := by
  rcases note with ⟨batch, told, taken, givenUp⟩
  cases hover : Note.isOver ⟨batch, told, taken, givenUp⟩ with
  | false =>
      obtain ⟨-, hnot⟩ := Note.isOver_eq_false_iff.mp hover
      refine ⟨?_, h.last, fun _ => hnot⟩
      rw [Note.giveUp, hover]
      rfl
  | true =>
      rw [Note.giveUp, hover]
      exact ⟨hover, h⟩

/-- A pool that was left with nothing, and the batch that was out given up. -/
theorem Supervised.givenUp (h : Supervised log p) (hq : q.Settled) (hsize : q.size = p.size)
    (hempty : q.contents = []) (hsilent : q.events = []) :
    Supervised (log.modifyHead Note.giveUp) q := by
  obtain ⟨hdone, -⟩ := contents_eq_nil_iff.mp hempty
  -- A note that is given up is over, whatever it had heard.
  have hover : ∀ note ∈ log.modifyHead Note.giveUp, note.isOver = true ∧ note.InOrder := by
    cases log with
    | nil => exact fun _ hnote => nomatch hnote
    | cons latest earlier =>
        obtain ⟨hlatest, hearlier⟩ := List.forall_mem_cons.mp h.inOrder
        exact List.forall_mem_cons.mpr
          ⟨Note.giveUp_spec hlatest, fun note hnote => ⟨h.past note hnote, hearlier note hnote⟩⟩
  have hout : isOut (log.modifyHead Note.giveUp) = false := by
    cases hlog : log.modifyHead Note.giveUp with
    | nil => rfl
    | cons note earlier => simp [isOut, (hover note (hlog ▸ List.mem_cons_self)).1]
  exact {
    settled := hq
    staffed := hsize ▸ h.staffed
    own := .inl hsilent
    working := fun hqueue => absurd hdone.1 hqueue
    owing := fun hyes => absurd (hout.symm.trans hyes) Bool.false_ne_true
    resting := fun _ => ⟨hdone, hsilent⟩
    past := fun note hnote => (hover note (List.mem_of_mem_tail hnote)).1
    inOrder := fun note hnote => (hover note hnote).2
    kept := fun note hnote hrunning => absurd
      (hrunning.symm.trans (hover note (List.mem_of_mem_head? hnote)).1) Bool.false_ne_true }

/-! ### Calls -/

/-- **One call** keeps the log in agreement with the pool. -/
theorem Supervised.step (h : Supervised log p) {call : Call} {later : List Note}
    (hcall : p.supervise log call = .ok (later, q)) : Supervised later q := by
  cases call with
  | enqueue now batch =>
      rw [supervise] at hcall
      split at hcall
      · obtain ⟨rfl, rfl⟩ := Prod.mk.inj (Except.ok.inj hcall)
        exact h
      · rename_i hqueued
        obtain ⟨rfl, rfl⟩ := Prod.mk.inj (Except.ok.inj hcall)
        obtain ⟨hbatch, hout⟩ := not_or.mp hqueued
        exact h.enqueue (Bool.not_eq_true _ ▸ hout) now hbatch
  | poll now id w =>
      obtain ⟨⟨e, r⟩, hpoll, hcall⟩ := Checked.bind_eq_ok_iff.mp hcall
      obtain ⟨rfl, rfl⟩ := Prod.mk.inj (Except.ok.inj hcall)
      exact h.poll hpoll
  | takeFinished =>
      obtain ⟨rfl, rfl⟩ := Prod.mk.inj (Except.ok.inj hcall)
      exact h.takeFinished
  | salvage =>
      obtain ⟨⟨s, r⟩, hsalvage, hcall⟩ := Checked.bind_eq_ok_iff.mp hcall
      obtain ⟨rfl, rfl⟩ := Prod.mk.inj (Except.ok.inj hcall)
      obtain ⟨hsettled, -⟩ := salvage_spec h.settled hsalvage
      -- A salvage that finds nothing leaves the batch out, and any other one ends it.
      split
      · rename_i hnothing
        obtain rfl := salvage_of_isEmpty hsalvage hnothing
        obtain ⟨-, hcarried, hfinished⟩ := collect_spec h.settled
        exact h.same hsettled (size_collect p) hcarried rfl hfinished rfl
      · rename_i hsome
        rcases salvage_left h.settled hsalvage with ⟨hnothing, -⟩ | ⟨hempty, hevents⟩
        · exact absurd hnothing hsome
        · exact h.givenUp hsettled (size_salvage hsalvage) hempty hevents
  | stop =>
      obtain ⟨rfl, rfl⟩ := Prod.mk.inj (Except.ok.inj hcall)
      obtain ⟨hsettled, hempty⟩ := stop_spec p
      exact h.givenUp hsettled (size_stop p) hempty rfl
  | sent closed =>
      obtain ⟨rfl, rfl⟩ := Prod.mk.inj (Except.ok.inj hcall)
      exact h.same (settled_afterSent h.settled closed) (size_afterSent p closed)
        (carried_afterSent p closed) rfl rfl rfl

/-- **Any calls** keep the log in agreement with the pool. -/
theorem Supervised.run (calls : List Call) (h : Supervised log p) {later : List Note}
    (hcalls : p.superviseAll log calls = .ok (later, q)) : Supervised later q := by
  induction calls generalizing p log with
  | nil =>
      obtain ⟨rfl, rfl⟩ := Prod.mk.inj (Except.ok.inj hcalls)
      exact h
  | cons call rest ih =>
      obtain ⟨⟨between, p'⟩, hcall, hrest⟩ := Checked.bind_eq_ok_iff.mp hcalls
      exact ih (h.step hcall) hrest

/-! ### What the owner can rely on -/

/-- A batch that is over was given up, or its end was told, once. -/
theorem Note.InOrder.count {note : Note} (h : note.InOrder) (hover : note.isOver = true) :
    note.told.count .batchComplete = if note.givenUp then 0 else 1 := by
  cases hgiven : note.givenUp with
  | true => exact List.count_eq_zero.mpr (h.given hgiven)
  | false =>
      have htold : .batchComplete ∈ note.told := by simpa [Note.isOver, hgiven] using hover
      -- It is not among what was told before the last, so that it is the last.
      have hne := List.ne_nil_of_mem htold
      have hsplit := List.dropLast_append_getLast hne
      have hlast : note.told.getLast hne = .batchComplete := by
        rw [← hsplit] at htold
        rcases List.mem_append.mp htold with hmem | hmem
        · exact absurd hmem h.last
        · exact (List.mem_singleton.mp hmem).symm
      rw [← hsplit, List.count_append, List.count_eq_zero.mpr h.last, hlast]
      rfl

/-- While a batch is out, a fetcher is busy or the end of the batch is still to be told. -/
theorem Supervised.owed (h : Supervised log p) (hout : isOut log = true) :
    (∃ f ∈ p.fetchers, f.isBusy = true) ∨ .batchComplete ∈ p.events :=
  (owing_iff h.settled).mp (h.owing hout)

/-- Once no fetcher is busy, the end of the batch that is out is told in the next turn. -/
theorem Supervised.told (h : Supervised log p) (hout : isOut log = true)
    (hquiet : p.isQuiet = true) (now id : Nat) (w : Wake) :
    ∃ r, p.poll now id w = .ok (some .batchComplete, r) := by
  have hcarried := (isQuiet_iff h.settled.fetchers).mp hquiet
  have hnews : p.events ≠ [] := (h.owing hout).resolve_left fun hsome => hsome hcarried
  have hevents := h.settled.events.resolve_left hnews
  exact ⟨{ p with events := [] }, by rw [Pool.poll, takeEvent?, hevents]⟩

/-- Where nothing of a batch is left to do, its layers have finished, or were taken, or were named
as shed. -/
theorem Supervised.accounted (h : Supervised log p) {note : Note} (hnote : note ∈ log.head?)
    (hout : isOut log = true) (hmoved : p.contents.Perm q.contents) (hdone : q.IsDone) :
    note.batch <+~ q.finished.map Delivery.segment ++ note.taken ++ note.shed := by
  obtain ⟨latest, earlier, rfl, hover⟩ := exists_of_isOut hout
  obtain rfl := Option.some.inj (Option.mem_def.mp hnote)
  obtain ⟨hqueue, hcarried⟩ := hdone
  rw [contents, contents, hqueue, hcarried] at hmoved
  exact (h.kept latest rfl hover).trans ((hmoved.append_right _).append_right _).subperm

/-- **The end of a batch is told once, and not early.** The owner of a new pool makes any calls, but
queues a batch only if it has a layer and no other one is out, and keeps a log.

* The end of each batch that is over was told exactly once, or never if the batch was given up. It
  was told after all that was told as shed. All batches but the latest are over.
* While a batch is out, a fetcher is busy or the end is about to be told. Once no fetcher is busy
  any more, the next turn tells the end. When no batch is out, no turn tells anything.
* When the end of a batch is about to be told, and also when it is told, nothing of the batch is
  queued or with a fetcher: each of its layers has finished (and may have been taken), or was named
  as shed.
* Where layers wait, a fetcher is busy. -/
theorem batch_ends_once {count : Nat} {settings : FetchSettings} {calls : List Call}
    (hnew : Pool.ofSettings count settings = .ok (.ok p))
    (hcalls : p.superviseAll [] calls = .ok (log, q)) :
    (∀ note ∈ log, note.isOver = true →
        note.told.count .batchComplete = if note.givenUp then 0 else 1) ∧
      (∀ note ∈ log, .batchComplete ∉ note.told.dropLast) ∧
      (∀ note ∈ log.tail, note.isOver = true) ∧
      (isOut log = true →
        ((∃ f ∈ q.fetchers, f.isBusy = true) ∨ .batchComplete ∈ q.events) ∧
          (q.isQuiet = true →
            ∀ now id w, ∃ r, q.poll now id w = .ok (some .batchComplete, r))) ∧
      (isOut log = false → ∀ now id w e r, q.poll now id w = .ok (e, r) → e = none) ∧
      (∀ note ∈ log.head?, .batchComplete ∈ q.events →
        q.isIdle = true ∧
          note.batch <+~ q.finished.map Delivery.segment ++ note.taken ++ note.shed) ∧
      (∀ note ∈ log.head?, ∀ now id w r, q.poll now id w = .ok (some .batchComplete, r) →
        r.isIdle = true ∧
          note.batch <+~ r.finished.map Delivery.segment ++ note.taken ++ note.shed) ∧
      (q.queue ≠ [] → ∃ f ∈ q.fetchers, f.isBusy = true) := by
  have hq : Supervised log q := (supervised_ofSettings hnew).run calls hcalls
  refine ⟨fun note hnote hover => (hq.inOrder note hnote).count hover,
    fun note hnote => (hq.inOrder note hnote).last, hq.past,
    fun hout => ⟨hq.owed hout, hq.told hout⟩, fun hout now id w e r => hq.silent hout,
    ?pending, ?told, ?queued⟩
  case pending =>
    intro note hnote htold
    -- There is something to tell, so that a batch is out.
    have hsome : q.events ≠ [] := List.ne_nil_of_mem htold
    have hout : isOut log = true := by
      by_contra hover
      exact hsome (hq.resting (Bool.not_eq_true _ ▸ hover)).2
    have hdone : q.IsDone := hq.own.resolve_left hsome
    exact ⟨(isIdle_iff hq.settled.fetchers).mpr hdone,
      hq.accounted hnote hout (List.Perm.refl _) hdone⟩
  case told =>
    intro note hnote now id w r hpoll
    have hout : isOut log = true := by
      by_contra hover
      exact nomatch hq.silent (Bool.not_eq_true _ ▸ hover) hpoll
    obtain ⟨hr, hturn⟩ := poll_turn hq.settled hpoll
    have hdone := (hq.own.turn hr hturn).2 rfl
    -- A turn that tells the end takes nothing out of the pool.
    have hmoved : q.contents.Perm (r.contents ++ []) := hturn.contents_perm
    rw [List.append_nil] at hmoved
    exact ⟨(isIdle_iff hr.fetchers).mpr hdone, hq.accounted hnote hout hmoved hdone⟩
  case queued =>
    exact fun hqueue => (carried_ne_nil_iff hq.settled.fetchers).mp (hq.working hqueue)

/-- Of the first batch one layer arrives and one is refused. A batch that is queued meanwhile is not
accepted. The second batch is stopped while it is out. -/
def twoBatches : List Call :=
  [.enqueue 0 [sampleLayer 2, sampleLayer 0, sampleLayer 1], .sent (fun _ => false),
    .poll 10 0 (.reply ⟨⟨(sampleLayer 0).name, 0⟩, .data (Length.encode 0)⟩),
    .enqueue 10 [sampleLayer 0],
    .poll 20 1 (.reply ⟨⟨(sampleLayer 1).name, 0⟩, .nack .rejected⟩),
    .poll 30 0 .tick, .takeFinished, .enqueue 40 [sampleLayer 3], .stop]

/-- The end of the first batch was told once, after what was shed of it. That of the second one was
not told, and nothing is left to be told. -/
theorem batch_ends_once_sample :
    ∃ p first second q, Pool.ofSettings 2 {} = .ok (.ok p) ∧
      p.superviseAll [] twoBatches = .ok ([second, first], q) ∧
      first.told = [.layersShed (sampleLayer 1) [sampleLayer 2], .batchComplete] ∧
      first.told.count .batchComplete = 1 ∧ second.batch = [sampleLayer 3] ∧
      second.told.count .batchComplete = 0 ∧
      ∀ now id w e r, q.poll now id w = .ok (e, r) → e = none := by
  have hvalue : ((Pool.ofSettings 2 {}).toOption.bind fun r => r.toOption.bind fun p =>
      (p.superviseAll [] twoBatches).toOption.map fun r =>
        r.1.map fun note => (note.batch, note.told, note.givenUp)) =
      some [([sampleLayer 3], [], true),
        ([sampleLayer 2, sampleLayer 0, sampleLayer 1],
          [.layersShed (sampleLayer 1) [sampleLayer 2], .batchComplete], false)] := by
    decide +kernel
  obtain ⟨made, hnew, hvalue⟩ := Checked.exists_of_bind_toOption hvalue
  obtain ⟨p, rfl, hmade⟩ := Checked.exists_of_bind_toOption hvalue
  obtain ⟨⟨log, q⟩, hcalls, hlog⟩ := Checked.exists_of_map_toOption hmade
  obtain ⟨second, rest, rfl, hsecond, hlog⟩ := List.map_eq_cons_iff.mp hlog
  obtain ⟨first, rest, rfl, hfirst, hlog⟩ := List.map_eq_cons_iff.mp hlog
  obtain rfl := List.map_eq_nil_iff.mp hlog
  simp only [Prod.mk.injEq] at hsecond hfirst
  obtain ⟨honce, -, hpast, -, hsilent, -⟩ := batch_ends_once hnew hcalls
  have hover : second.isOver = true := by rw [Note.isOver, hsecond.2.2]; rfl
  refine ⟨p, first, second, q, hnew, hcalls, hfirst.2.1, ?_, hsecond.1, ?_, hsilent ?_⟩
  · rw [honce first (by simp) (hpast first (by simp)), hfirst.2.2]
    rfl
  · rw [honce second (by simp) hover, hsecond.2.2]
    rfl
  · rw [isOut, hover]
    rfl

end LayerCast.Pool
