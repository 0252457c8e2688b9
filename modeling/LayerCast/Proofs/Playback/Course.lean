import LayerCast.Proofs.Playback.Run
import LayerCast.Proofs.Policy.InStep
import LayerCast.Proofs.Policy.Nature
import LayerCast.Proofs.Pool.OneBatch

/-!
# `LayerCast.Proofs.Playback.Course`: a player on its course

`Player.OnCourse m D spent first next p` ties together what a player and its parts know about
content of which every segment brings `D` nanoseconds. The segments before `first` were played and
those before `next` were credited, the policy is in step with that, and the layers in the pool
belong to one segment for which there is still room in the buffer. Of the time that was played,
`spent` stands on reports that were taken.

Everything that a player does keeps it on its course, with a larger `next` when a segment is
credited and a larger `first` when segments are played: it requests (`OnCourse.stream`), it hears of
the end of a batch (`OnCourse.batchComplete`) and of rejections (`OnCourse.layersShed`), it plays
(`OnCourse.played`), and it salvages (`OnCourse.takeSalvage`).
-/

set_option autoImplicit false

namespace LayerCast

/-! ### Content of equal segments -/

/-- Content of which every segment that brings playback time brings the same. Those are the segments
of the base layer, if the content is layered, and all segments otherwise. -/
structure Manifest.Steady (m : Manifest) (D : Nat) (layered : Bool) : Prop where
  positive : 0 < D
  playable : m.representations m.currentPeriod ≠ []
  equal : ∀ level r, (m.representations m.currentPeriod)[level]? = some r →
    (layered = true → level = 0) → r.duration = D

/-- Steady content has a lowest level. -/
theorem Manifest.Steady.exists_base {m : Manifest} {D : Nat} {layered : Bool}
    (h : m.Steady D layered) :
    ∃ r, (m.representations m.currentPeriod)[0]? = some r ∧ r.duration = D := by
  obtain ⟨r, rest, hsome⟩ := List.exists_cons_of_ne_nil h.playable
  have hbase : (m.representations m.currentPeriod)[0]? = some r := by
    rw [hsome]
    rfl
  exact ⟨r, hbase, h.equal 0 r hbase fun _ => rfl⟩

namespace Player

/-! ### The course of a playback -/

/-- A player that has played the segments before `first` and credited those before `next`. -/
structure Accounts (m : Manifest) (D spent first next : Nat) (p : Player) : Prop where
  manifest : p.manifest = m
  queues : p.holdings.Queues first next p.buffer.filled
  /-- Only of the first segment in the queue a part can have been played. -/
  whole : ∀ u ∈ p.holdings.playout.tail, u.left = D
  once : p.holdings.held.Nodup
  /-- What was played and what is in store is what was credited. -/
  balance : spent + p.report.played + p.buffer.filled = next * D
  inside : next ≤ m.currentTotal
  ended : p.report.completed = true → first = m.currentTotal

/-- A player with a policy that is in step, while the layers in `out` are requested. -/
structure Course (m : Manifest) (D spent first next : Nat) (out : List Segment) (p : Player) : Prop
    extends p.Accounts m D spent first next where
  policy : p.policy.InStep p.holdings.held first next out
  steady : m.Steady D p.policy.isLayered

/-- The layers are those of one segment of the content, and the buffer has room for it. -/
def HasRoomFor (m : Manifest) (D : Nat) (out : List Segment) (p : Player) : Prop :=
  ∃ number, ∀ s ∈ out, m.segment? s.level number = some s ∧
    p.buffer.filled + D ≤ p.buffer.capacity

/-- A player between any two things that it does. -/
structure OnCourse (m : Manifest) (D spent first next : Nat) (p : Player) : Prop where
  course : p.Course m D spent first next p.pool.contents
  room : p.HasRoomFor m D p.pool.contents
  settled : p.pool.Settled
  own : p.pool.TellsOwn
  /-- Without a batch the pool has nothing to do and nothing to tell. -/
  resting : p.pending = none → p.pool.contents = [] ∧ p.pool.events = []
  downloaded : p.allDownloaded = true → p.pending = none ∧ next = m.currentTotal

variable {m : Manifest} {D spent first next : Nat} {p q : Player}

/-- Where the pool holds nothing there is room for what it holds. -/
theorem hasRoomFor_nil (m : Manifest) (D : Nat) (p : Player) : p.HasRoomFor m D [] :=
  ⟨0, fun _ hs => absurd hs List.not_mem_nil⟩

/-- There is room for a part of what there is room for. -/
theorem HasRoomFor.mono {out out' : List Segment} (h : p.HasRoomFor m D out)
    (hsub : ∀ s ∈ out', s ∈ out) : p.HasRoomFor m D out' := by
  obtain ⟨number, hall⟩ := h
  exact ⟨number, fun s hs => hall s (hsub s hs)⟩

/-- A player between two batches is on its course if its playback is. -/
theorem Course.between (h : p.Course m D spent first next []) (hsettled : p.pool.Settled)
    (hempty : p.pool.contents = []) (hsilent : p.pool.events = [])
    (hmore : p.allDownloaded = false) : p.OnCourse m D spent first next where
  course := by
    rw [hempty]
    exact h
  room := by
    rw [hempty]
    exact hasRoomFor_nil m D p
  settled := hsettled
  own := .inl hsilent
  resting := fun _ => ⟨hempty, hsilent⟩
  downloaded := fun hall => by
    rw [hmore] at hall
    cases hall

/-! ### Requesting -/

/-- A request needs room for one segment. -/
theorem nextDuration_eq {layered : Bool} (hm : m.Steady D layered) (hp : p.manifest = m) :
    p.nextDuration = D := by
  obtain rfl := hp
  obtain ⟨r, hbase, hduration⟩ := hm.exists_base
  rw [nextDuration, Manifest.segmentDuration?, hbase]
  exact hduration

/-- A batch of one segment goes to the pool of a player that had none out. -/
theorem OnCourse.request (h : p.OnCourse m D spent first next) (hpending : p.pending = none)
    (hmore : p.allDownloaded = false) (hroom : p.buffer.hasRoom p.nextDuration = true)
    {policy : Adaptation} {s : Segment} {rest : List Segment}
    (hstep : policy.InStep p.holdings.held first next (s :: rest))
    (hsteady : m.Steady D policy.isLayered) {number : Nat}
    (hbatch : ∀ x ∈ s :: rest, m.segment? x.level number = some x) (now : Nat) :
    (({ p with policy } : Player).request now s (s :: rest)).OnCourse m D spent first next := by
  obtain ⟨hempty, hsilent⟩ := h.resting hpending
  obtain ⟨hsettled, hcontents⟩ := Pool.enqueue_spec h.settled now (s :: rest)
  rw [hempty, List.append_nil] at hcontents
  have hevents := (Pool.enqueue_events p.pool now (s :: rest)).trans hsilent
  refine ⟨{ h.course with policy := hstep.perm hcontents.symm, steady := hsteady },
    ⟨number, fun x hx => ?_⟩, hsettled, .inl hevents, fun hnone => ?_, fun hall => ?_⟩
  · -- The buffer had room for one more segment.
    rw [nextDuration_eq h.course.steady h.course.manifest] at hroom
    exact ⟨hbatch x (hcontents.mem_iff.mp hx), of_decide_eq_true hroom⟩
  · cases hnone
  · have hno : p.allDownloaded = true := hall
    rw [hmore] at hno
    cases hno

/-- Requesting keeps a player on its course: whatever is requested next is of one segment, and at
the end of the content everything was credited. -/
theorem OnCourse.stream (h : p.OnCourse m D spent first next) {now : Nat}
    (hstream : p.stream now = .ok q) : q.OnCourse m D spent first next := by
  have hasked : ∀ {batch : List Segment} {policy : Adaptation}, p.pending = none →
      p.policy.next p.manifest p.buffer p.holdings = .ok (batch, policy) →
      policy.InStep p.holdings.held first next batch ∧ m.Steady D policy.isLayered ∧
        ∃ number, ∀ s ∈ batch, m.segment? s.level number = some s := by
    intro batch policy free asked
    have hpolicy := h.course.policy
    rw [(h.resting free).1] at hpolicy
    rw [h.course.manifest] at asked
    obtain ⟨hstep, hbatch⟩ := hpolicy.requested h.course.queues asked
    rw [Adaptation.isLayered_of_nature (Adaptation.nature_next asked)]
    exact ⟨hstep, h.course.steady, hbatch⟩
  cases stream_cases hstream with
  | waits => exact h
  | nothing policy exhausted free more asked answered =>
      -- Nothing is requested. The player may have come to the end of the content.
      obtain ⟨hstep, hsteady, -⟩ := hasked free asked
      rw [h.course.manifest] at answered
      refine { h with
        course := { h.course with policy := ?_, steady := hsteady }
        downloaded := ?_ }
      · show policy.InStep p.holdings.held first next p.pool.contents
        rw [(h.resting free).1]
        exact hstep
      · rintro rfl
        have htotal := hstep.isExhausted h.course.queues answered
        exact ⟨free, Nat.le_antisymm h.course.inside htotal⟩
  | requested policy s rest free more asked room =>
      obtain ⟨hstep, hsteady, number, hbatch⟩ := hasked free asked
      exact h.request free more room hstep hsteady hbatch now

/-! ### Taking in -/

/-- What taking in layers does to a player: the layers are recorded under the number, the policy
hears of them, and the report and the notices tell of them. -/
theorem foldl_takeInLayer (now number : Nat) (ds : List Delivery) (p : Player) :
    ∃ records notices, records = p.report.records ++ ds.map Delivery.toRecord ∧
      ds.foldl (takeInLayer now number) p =
        { p with
          holdings := ((ds.map Delivery.segment).map Segment.level).foldl
            (Holdings.recorded number) p.holdings
          policy := (ds.map Delivery.throughput).foldl Adaptation.delivered p.policy
          report := { p.report with records }
          notices } := by
  induction ds generalizing p with
  | nil => exact ⟨p.report.records, p.notices, (List.append_nil _).symm, rfl⟩
  | cons d rest ih =>
      obtain ⟨records, notices, hrecords, hrest⟩ := ih (takeInLayer now number p d)
      refine ⟨records, notices, ?_, hrest⟩
      rw [hrecords, List.map_cons]
      exact List.append_assoc _ [d.toRecord] _

/-- Behind the first one a queue has what it had there before, and what was put at its end. -/
theorem mem_tail_concat {u v : Unplayed} {queue : List Unplayed} (h : v ∈ (queue ++ [u]).tail) :
    v ∈ queue.tail ∨ v = u := by
  cases queue with
  | nil => cases h
  | cons first rest =>
      rcases List.mem_append.mp h with hrest | hlast
      · exact .inl hrest
      · exact .inr (List.mem_singleton.mp hlast)

/-- The segment that comes next is credited if there is room for it. -/
theorem Accounts.credit (h : p.Accounts m D spent first next)
    (hsteady : m.Steady D p.policy.isLayered) (hinside : next < m.currentTotal)
    (hroom : p.buffer.filled + D ≤ p.buffer.capacity)
    (hpolicy : p.policy.InStep p.holdings.held first (next + 1) []) :
    (p.credit next D).Course m D spent first (next + 1) [] := by
  obtain ⟨holdings, hschedule, hheld, hplayout, hqueues⟩ := h.queues.schedule hsteady.positive
  have hadd : p.buffer.add? D = some { p.buffer with filled := p.buffer.filled + D } :=
    PlayoutBuffer.add?_eq_some_iff.mpr ⟨hroom, rfl⟩
  have hcredit : p.credit next D =
      { p with holdings, buffer := { p.buffer with filled := p.buffer.filled + D } } := by
    have hfits : p.buffer.hasRoom D = true := decide_eq_true hroom
    rw [Player.credit, if_pos hfits, hadd]
    simp only [hschedule, Option.getD_some]
  -- Once more the duration of a segment is in the buffer, and the next segment is one further.
  have hbalance : spent + p.report.played + (p.buffer.filled + D) = (next + 1) * D := by
    rw [← Nat.add_assoc, h.balance, Nat.succ_mul]
  have hwhole : ∀ u ∈ holdings.playout.tail, u.left = D := by
    intro u hu
    rw [hplayout] at hu
    rcases mem_tail_concat hu with hu | rfl
    · exact h.whole u hu
    · rfl
  rw [hcredit]
  refine { h with
    queues := hqueues
    whole := hwhole
    once := ?_
    balance := hbalance
    inside := hinside
    policy := ?_
    steady := hsteady }
  · rw [hheld]
    exact h.once
  · rw [hheld]
    exact hpolicy

/-- Crediting changes nothing but the holdings and what the buffer is filled with. -/
theorem credit_eq (p : Player) (number duration : Nat) :
    ∃ buffer holdings, buffer.capacity = p.buffer.capacity ∧
      p.credit number duration = { p with buffer, holdings } := by
  unfold Player.credit
  split
  · split
    · exact ⟨p.buffer, p.holdings, rfl, rfl⟩
    · refine ⟨_, _, ?_, rfl⟩
      -- The buffer may take the time, and is as large as before.
      unfold PlayoutBuffer.add?
      split <;> rfl
  · exact ⟨p.buffer, p.holdings, rfl, rfl⟩

/-- Taking in puts every delivery on record, once, and lets the policy hear of it. Nothing else is
changed but the buffer, the holdings and the notices. -/
theorem takeIn_form (p : Player) (now : Nat) (ds : List Delivery) :
    ∃ buffer holdings notices, buffer.capacity = p.buffer.capacity ∧
      p.takeIn now ds =
        { p with
          buffer
          holdings
          notices
          policy := (ds.map Delivery.throughput).foldl Adaptation.delivered p.policy
          report := { p.report with
            records := p.report.records ++ ds.map Delivery.toRecord } } := by
  cases ds with
  | nil =>
      refine ⟨p.buffer, p.holdings, p.notices, rfl, ?_⟩
      rw [List.map_nil, List.map_nil, List.append_nil]
      rfl
  | cons d rest =>
      obtain ⟨records, notices, hrecords, hfold⟩ :=
        foldl_takeInLayer now d.segment.number (d :: rest) p
      unfold Player.takeIn
      simp only
      rw [hfold, ← hrecords]
      -- Crediting changes buffer and holdings, and only where the segment can be played.
      split
      · obtain ⟨buffer, holdings, hcapacity, hcredit⟩ := credit_eq { p with
          holdings := (((d :: rest).map Delivery.segment).map Segment.level).foldl
            (Holdings.recorded d.segment.number) p.holdings
          policy := ((d :: rest).map Delivery.throughput).foldl Adaptation.delivered p.policy
          report := { p.report with records }
          notices } d.segment.number d.segment.duration
        exact ⟨buffer, holdings, notices, hcapacity, hcredit⟩
      · exact ⟨p.buffer, _, notices, rfl, rfl⟩

/-- Taking in changes nothing that has to do with the batch that is out, and playback goes on. -/
theorem takeIn_eq (p : Player) (now : Nat) (ds : List Delivery) :
    (p.takeIn now ds).pool = p.pool ∧ (p.takeIn now ds).pending = p.pending ∧
      (p.takeIn now ds).allDownloaded = p.allDownloaded ∧
      (p.takeIn now ds).playing = p.playing := by
  obtain ⟨buffer, holdings, notices, -, htaken⟩ := takeIn_form p now ds
  rw [htaken]
  exact ⟨rfl, rfl, rfl, rfl⟩

/-- Salvaging touches the pool no more, and removes the note of the batch if anything is found. -/
theorem takeSalvage_eq (p : Player) (now : Nat) (s : Salvage) :
    (p.takeSalvage now s).pool = p.pool ∧
      (p.takeSalvage now s).pending = (if s.isEmpty then p.pending else none) ∧
      (p.takeSalvage now s).playing = p.playing := by
  unfold Player.takeSalvage
  split
  · exact ⟨rfl, rfl, rfl⟩
  · obtain ⟨hpool, hpending, -, hplaying⟩ := takeIn_eq { p with
      policy := s.dropped.foldl Adaptation.abandoned p.policy
      pending := none } now s.usable
    exact ⟨hpool, hpending, hplaying⟩

/-- Of layers in the order of their levels that can be played, the first one brings the time of a
segment. -/
theorem duration_of_playable {layered : Bool} {s : Segment} {rest : List Segment} {number : Nat}
    (hm : m.Steady D layered) (hsegment : m.segment? s.level number = some s)
    (hsorted : (s :: rest).Pairwise fun x y => x.level ≤ y.level)
    (hplayable : (!layered || (s :: rest).any (·.level == 0)) = true) : s.duration = D := by
  obtain ⟨-, -, -, r, hr, hduration⟩ := Manifest.segment?_spec hsegment
  refine hduration.trans (hm.equal s.level r hr fun hlayered => ?_)
  -- The base layer is there, and no layer lies below the first one.
  rw [hlayered, Bool.not_true, Bool.false_or] at hplayable
  obtain ⟨x, hx, hlevel⟩ := List.any_eq_true.mp hplayable
  have hzero : x.level = 0 := beq_iff_eq.mp hlevel
  rcases List.mem_cons.mp hx with rfl | hx
  · exact hzero
  · have hle := List.rel_of_pairwise_cons hsorted hx
    omega

/-- The layers of a segment are taken in: the segment is credited if it can be played, and else it
is still missing. -/
theorem Course.takeIn {ds : List Delivery}
    (h : p.Course m D spent first next (ds.map Delivery.segment))
    (hsorted : ds.Pairwise fun d e => d.segment.level ≤ e.segment.level)
    (hroom : p.HasRoomFor m D (ds.map Delivery.segment)) (now : Nat) :
    ∃ next', (p.takeIn now ds).Course m D spent first next' [] := by
  obtain ⟨number, hall⟩ := hroom
  replace hsorted : (ds.map Delivery.segment).Pairwise fun x y => x.level ≤ y.level :=
    List.pairwise_map.mpr hsorted
  cases ds with
  | nil => exact ⟨next, h⟩
  | cons d rest =>
      have hd : d.segment ∈ (d :: rest).map Delivery.segment :=
        List.mem_map_of_mem List.mem_cons_self
      obtain ⟨hsegment, hfits⟩ := hall d.segment hd
      obtain ⟨-, rfl, hinside, -⟩ := Manifest.segment?_spec hsegment
      -- All layers belong to one segment, since the content has them at their numbers.
      have hnumber : ∀ s ∈ (d :: rest).map Delivery.segment, s.number = d.segment.number :=
        fun s hs => (Manifest.segment?_spec (hall s hs).1).2.1
      obtain ⟨records, notices, -, hfold⟩ := foldl_takeInLayer now d.segment.number (d :: rest) p
      have hplayable : (d :: rest).any (·.segment.level == 0) =
          ((d :: rest).map Delivery.segment).any (·.level == 0) := by
        rw [List.any_map]
        rfl
      have hduration := duration_of_playable h.steady hsegment hsorted
      rw [List.map_cons] at h hsorted hd hnumber
      unfold Player.takeIn
      simp only
      rw [hfold, hplayable, List.map_cons]
      -- From here on only the rates and the layers of the deliveries matter.
      generalize ((d :: rest).map Delivery.throughput) = rates
      generalize hlayers : d.segment :: rest.map Delivery.segment = layers at *
      have hqueues := h.queues.recorded d.segment.number (layers.map Segment.level)
      have hwhole := h.whole
      rw [← Holdings.playout_foldl_recorded (layers.map Segment.level) p.holdings
        d.segment.number] at hwhole
      have honce := Holdings.nodup_foldl_recorded (layers.map Segment.level) h.once
        d.segment.number
      have hsteady : m.Steady D (rates.foldl Adaptation.delivered p.policy).isLayered := by
        rw [Adaptation.isLayered_of_nature (Adaptation.nature_delivered rates p.policy)]
        exact h.steady
      split
      · -- The segment can be played, and is the one that comes next.
        rename_i hplay
        obtain ⟨hnext, hstep⟩ :=
          h.policy.taken h.queues (List.ne_nil_of_mem hd) hnumber hplay
        refine ⟨next + 1, ?_⟩
        rw [hduration hplay]
        rw [hnext] at hinside hqueues hwhole honce hstep ⊢
        exact Accounts.credit { h with queues := hqueues, whole := hwhole, once := honce } hsteady
          hinside hfits (hstep.delivered rates)
      · rename_i hplay
        -- Without a base layer nothing is credited, and the same segment comes next.
        have hstep := h.policy.passedBy d.segment.number (Bool.eq_false_iff.mpr hplay)
        exact ⟨next, { h with
          queues := hqueues
          whole := hwhole
          once := honce
          policy := hstep.delivered rates
          steady := hsteady }⟩

/-! ### What the pool tells -/

section
variable {r : Pool} {now : Nat}

/-- A turn of the pool of which nothing is told keeps the player on its course. -/
theorem OnCourse.turn (h : p.OnCourse m D spent first next) (hr : r.Settled)
    (hturn : Pool.Turn p.pool none r) :
    ({ p with pool := r } : Player).OnCourse m D spent first next := by
  have hperm : p.pool.contents.Perm (r.contents ++ []) := hturn.contents_perm
  rw [List.append_nil] at hperm
  obtain ⟨hown, -⟩ := h.own.turn hr hturn
  refine ⟨{ h.course with policy := h.course.policy.perm hperm }, ?_, hr, hown, ?_, h.downloaded⟩
  · exact h.room.mono fun s hs => hperm.mem_iff.mpr hs
  · intro hpending
    obtain ⟨hempty, hsilent⟩ := h.resting hpending
    obtain ⟨-, hevents⟩ := hturn.of_empty hempty hsilent
    rw [hempty] at hperm
    exact ⟨hperm.symm.eq_nil, hevents⟩

/-- The end of a batch is told: what has arrived is taken in, and the next batch is requested. -/
theorem OnCourse.batchComplete (h : p.OnCourse m D spent first next) (hr : r.Settled)
    (hturn : Pool.Turn p.pool (some .batchComplete) r)
    (hq : ({ p with pool := r } : Player).onPoolEvent now .batchComplete = .ok q) :
    ∃ next', q.OnCourse m D spent first next' := by
  obtain ⟨-, hdone⟩ := h.own.turn hr hturn
  obtain ⟨hqueue, hcarried⟩ := hdone rfl
  have hsilent := hturn.events_of_complete
  -- All layers of the batch are taken, and nothing is left in the pool.
  have hempty : r.takeFinished.2.contents = [] := by
    show r.queue ++ r.carried ++ [] = []
    rw [hqueue, hcarried]
    rfl
  obtain ⟨hsettled, htaken⟩ := Pool.takeFinished_spec hr
  have hperm : p.pool.contents.Perm (r.takeFinished.1.map Delivery.segment) := by
    have hall : p.pool.contents.Perm (r.contents ++ []) := hturn.contents_perm
    rw [List.append_nil] at hall
    rw [hempty, List.nil_append] at htaken
    exact hall.trans htaken
  have hcourse : ({ p with pool := r.takeFinished.2 } : Player).Course m D spent first next
      (r.takeFinished.1.map Delivery.segment) :=
    { h.course with policy := h.course.policy.perm hperm }
  obtain ⟨next', hcourse'⟩ := hcourse.takeIn (Pool.deliveriesByLevel_sorted r.finished)
    (h.room.mono fun s hs => hperm.mem_iff.mpr hs) now
  -- The content is not at its end, for then no batch is out of which the end could be told.
  have hmore : p.allDownloaded = false := by
    cases hall : p.allDownloaded with
    | false => rfl
    | true =>
        obtain ⟨hpending, -⟩ := h.downloaded hall
        obtain ⟨hnothing, hnews⟩ := h.resting hpending
        obtain ⟨hnone, -⟩ := hturn.of_empty hnothing hnews
        cases hnone
  obtain ⟨hpool, -, hall, -⟩ :=
    takeIn_eq { p with pool := r.takeFinished.2 } now r.takeFinished.1
  refine ⟨next', OnCourse.stream ?_ hq⟩
  exact Course.between { hcourse' with } (hpool ▸ hsettled) (hpool ▸ hempty) (hpool ▸ hsilent)
    (hall.trans hmore)

/-- A rejection is told: the policy hears of it. -/
theorem OnCourse.layersShed (h : p.OnCourse m D spent first next) (hr : r.Settled)
    {failed : Segment} {shed : List Segment}
    (hturn : Pool.Turn p.pool (some (.layersShed failed shed)) r)
    (hq : ({ p with pool := r } : Player).onPoolEvent now (.layersShed failed shed) = .ok q) :
    q.OnCourse m D spent first next := by
  obtain rfl := Except.ok.inj hq
  have hperm : p.pool.contents.Perm (r.contents ++ (failed :: shed)) := hturn.contents_perm
  obtain ⟨hown, -⟩ := h.own.turn hr hturn
  have hsteady : m.Steady D (p.policy.failed failed).isLayered := by
    rw [Adaptation.isLayered_of_nature (Adaptation.nature_failed p.policy failed)]
    exact h.course.steady
  refine ⟨{ h.course with policy := h.course.policy.failed hperm, steady := hsteady }, ?_, hr, hown,
    ?_, h.downloaded⟩
  · exact h.room.mono fun s hs => hperm.mem_iff.mpr (List.mem_append_left _ hs)
  · intro hpending
    obtain ⟨hempty, hsilent⟩ := h.resting hpending
    obtain ⟨hnone, -⟩ := hturn.of_empty hempty hsilent
    cases hnone

end

/-! ### Playing -/

/-- Time that is in store is played: the next few segments from `first` on. -/
theorem OnCourse.played (h : p.OnCourse m D spent first next) {time : Nat}
    (htime : time ≤ p.buffer.filled) {buffer : PlayoutBuffer}
    (hbuffer : buffer = { p.buffer with filled := p.buffer.filled - time }) :
    ∃ count, (({ p with buffer } : Player).played time).1 = List.range' first count ∧
      (({ p with buffer } : Player).played time).2.OnCourse m D spent (first + count) next := by
  obtain ⟨count, hnumbers, hqueues, hheld⟩ := h.course.queues.advance htime
  subst hbuffer
  -- What leaves the buffer is played, so that the sum of both stays.
  have hbalance : spent + (p.report.played + time) + (p.buffer.filled - time) = next * D := by
    rw [← h.course.balance]
    omega
  have hwhole : ∀ u ∈ (p.holdings.advance time).2.playout.tail, u.left = D := by
    rw [Holdings.playout_advance]
    exact fun u hu => h.course.whole u ((Holdings.tail_playOut_suffix _ time).mem hu)
  refine ⟨count, hnumbers, ?_⟩
  refine { h with
    course := { h.course with
      queues := hqueues
      whole := hwhole
      once := h.course.once.sublist (Holdings.held_foldl_passed_sublist _ _)
      balance := hbalance
      ended := fun hcompleted => ?_
      policy := h.course.policy.advance hheld }
    room := ?_ }
  · -- Behind the end of the content there is nothing to be played.
    have htotal := h.course.ended hcompleted
    have horder := hqueues.order
    have hinside := h.course.inside
    omega
  · obtain ⟨number, hall⟩ := h.room
    refine ⟨number, fun s hs => ?_⟩
    obtain ⟨hsegment, hfits⟩ := hall s hs
    refine ⟨hsegment, ?_⟩
    show p.buffer.filled - time + D ≤ p.buffer.capacity
    omega

/-- Where everything was requested and nothing is in store, playback is complete. -/
theorem OnCourse.complete (h : p.OnCourse m D spent first next) (hall : p.allDownloaded = true)
    (hempty : p.buffer.filled = 0) : p.complete.OnCourse m D spent first next := by
  have hqueues := h.course.queues
  rw [hempty] at hqueues
  obtain rfl := hqueues.eq_of_time
  obtain ⟨-, htotal⟩ := h.downloaded hall
  exact { h with course := { h.course with ended := fun _ => htotal } }

/-- Playback that is reported as complete has played all segments and their time. -/
theorem OnCourse.all_played (h : p.OnCourse m D spent first next)
    (hcompleted : p.report.completed = true) :
    first = m.currentTotal ∧ spent + p.report.played = first * D := by
  have htotal := h.course.ended hcompleted
  have horder := h.course.queues.order
  obtain rfl : next = first := Nat.le_antisymm (htotal ▸ h.course.inside) horder
  have hempty := h.course.queues.time_eq_zero
  have hbalance := h.course.balance
  rw [hempty, Nat.add_zero] at hbalance
  exact ⟨htotal, hbalance⟩

/-- What is usable of a batch is taken in, and what was dropped is still missing. -/
theorem OnCourse.takeSalvage (h : p.OnCourse m D spent first next)
    (hmore : p.allDownloaded = false) {s : Salvage} {r : Pool}
    (hsalvage : p.pool.salvage = .ok (s, r)) (now : Nat) :
    ∃ next',
      (({ p with pool := r } : Player).takeSalvage now s).OnCourse m D spent first next' := by
  obtain ⟨hsettled, hperm⟩ := Pool.salvage_spec h.settled hsalvage
  unfold Player.takeSalvage
  split
  · -- The batch stays out.
    rename_i hnothing
    obtain rfl := Pool.salvage_of_isEmpty hsalvage hnothing
    obtain ⟨-, hcarried, hfinished⟩ := Pool.collect_spec h.settled
    have hcontents : p.pool.collect.contents = p.pool.contents := by
      rw [Pool.contents, hcarried, Pool.arrived_of_eq hfinished]
      rfl
    refine ⟨next, ?_, ?_, hsettled, ?_, fun hpending => ?_, h.downloaded⟩
    · show Course m D spent first next p.pool.collect.contents _
      rw [hcontents]
      exact { h.course with }
    · show HasRoomFor m D p.pool.collect.contents _
      rw [hcontents]
      exact h.room
    · rw [Pool.TellsOwn, Pool.IsDone, hcarried]
      exact h.own
    · rw [hcontents]
      exact h.resting hpending
  · rename_i hsome
    obtain ⟨hempty, hsilent⟩ : r.contents = [] ∧ r.events = [] := by
      rcases Pool.salvage_left h.settled hsalvage with ⟨hnothing, -⟩ | hleft
      · exact absurd hnothing hsome
      · exact hleft
    rw [hempty, List.nil_append] at hperm
    -- The batch is given up, and what is usable of it arrives.
    have hsteady : m.Steady D (s.dropped.foldl Adaptation.abandoned p.policy).isLayered := by
      rw [Adaptation.isLayered_of_nature (Adaptation.nature_abandoned s.dropped p.policy)]
      exact h.course.steady
    have hcourse : ({ p with
        pool := r
        policy := s.dropped.foldl Adaptation.abandoned p.policy
        pending := none } : Player).Course m D spent first next (s.usable.map Delivery.segment) :=
      { h.course with policy := h.course.policy.abandoned hperm, steady := hsteady }
    have hroom := h.room.mono fun x hx =>
      hperm.mem_iff.mpr (List.mem_append_left (s.dropped) hx)
    obtain ⟨next', hcourse'⟩ := hcourse.takeIn (Pool.sorted_usable hsalvage) hroom now
    obtain ⟨hpool, -, hall, -⟩ := takeIn_eq { p with
      pool := r
      policy := s.dropped.foldl Adaptation.abandoned p.policy
      pending := none } now s.usable
    exact ⟨next', hcourse'.between (hpool ▸ hsettled) (hpool ▸ hempty) (hpool ▸ hsilent)
      (hall.trans hmore)⟩

/-! ### Ticks -/

/-- A playback that has come to `first` plays a few segments from there on and stays on its
course. -/
def Ticked.Continues (m : Manifest) (D spent first : Nat) (t : Ticked) : Prop :=
  ∃ count next, t.numbers = List.range' first count ∧
    t.player.OnCourse m D spent (first + count) next

/-- A tick that the buffer has covered. -/
theorem OnCourse.consumed (h : p.OnCourse m D spent first next) {now : Nat}
    {buffer : PlayoutBuffer} (hbuffer : p.buffer.consume? p.settings.tick = some buffer)
    {t : Ticked} (ht : p.consumed now buffer = .ok t) : t.Continues m D spent first := by
  obtain ⟨htime, hleft⟩ := PlayoutBuffer.consume?_eq_some_iff.mp hbuffer
  obtain ⟨count, hnumbers, hcourse⟩ := h.played htime hleft
  obtain ⟨q, hstream, ht⟩ := Checked.bind_eq_ok_iff.mp ht
  obtain rfl := Except.ok.inj ht
  exact ⟨count, next, hnumbers, hcourse.stream hstream⟩

/-- A stall is noted, and then the player goes on requesting. -/
theorem stream_of_stall {now : Nat} (h : p.stall now = .ok q) :
    ∃ stalls notices,
      ({ p with report := { p.report with stalls }, notices } : Player).stream now = .ok q := by
  unfold Player.stall at h
  cases hlast : p.holdings.lastConsumed with
  | none =>
      simp only [hlast] at h
      exact ⟨_, _, h⟩
  | some n =>
      simp only [hlast] at h
      obtain ⟨number, -, h⟩ := Checked.bind_eq_ok_iff.mp h
      exact ⟨_, _, h⟩

/-- A stall plays nothing. -/
theorem OnCourse.stall (h : p.OnCourse m D spent first next) {now : Nat}
    (hstall : p.stall now = .ok q) : q.OnCourse m D spent first next := by
  obtain ⟨stalls, notices, hstream⟩ := stream_of_stall hstall
  refine OnCourse.stream ?_ hstream
  exact { h with course := { h.course with } }

/-- A tick that the buffer covers or that is a stall. -/
theorem OnCourse.consumeOrStall (h : p.OnCourse m D spent first next) {now : Nat} {t : Ticked}
    (ht : p.consumeOrStall now = .ok t) : t.Continues m D spent first := by
  unfold Player.consumeOrStall at ht
  split at ht
  · rename_i buffer hbuffer
    exact h.consumed hbuffer ht
  · obtain ⟨q, hstall, ht⟩ := Checked.bind_eq_ok_iff.mp ht
    obtain rfl := Except.ok.inj ht
    exact ⟨0, next, rfl, h.stall hstall⟩

/-- One tick. -/
theorem OnCourse.consume (h : p.OnCourse m D spent first next) {now : Nat} {t : Ticked}
    (ht : p.consume now = .ok t) : t.Continues m D spent first := by
  cases consume_cases ht with
  | stopped => exact ⟨0, next, rfl, h⟩
  | ended all empty => exact ⟨0, next, rfl, h.complete all empty⟩
  | covered playing there ticked => exact h.consumed there ticked
  | drained all =>
      -- The rest of the content is shorter than a tick.
      have hdrained : ({ p.buffer with filled := 0 } : PlayoutBuffer) =
          { p.buffer with filled := p.buffer.filled - p.buffer.filled } := by
        rw [Nat.sub_self]
      obtain ⟨count, hnumbers, hcourse⟩ := h.played (Nat.le_refl _) hdrained
      exact ⟨count, next, hnumbers, hcourse.complete all rfl⟩
  | underrun playing more short saved ticked =>
      obtain ⟨next', hcourse⟩ := h.takeSalvage more saved now
      exact hcourse.consumeOrStall ticked

end Player

end LayerCast
