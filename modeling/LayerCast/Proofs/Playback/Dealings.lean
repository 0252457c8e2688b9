import LayerCast.Proofs.Playback.Reserve
import LayerCast.Proofs.Playback.Pending
import LayerCast.Proofs.Pool.Conservation

/-!
# `LayerCast.Proofs.Playback.Dealings`: every layer that was requested is accounted for

A player touches its pool by a few calls only. `Player.calls` lists those of a life, and the pool
that is left is the one that these calls lead to (`dealt_live`). So the account of a pool
(`Pool.Account`) tells what a player has requested, and where it has gone.

The reports of the player tell the same (`Mirrors`). What the pool has returned stands on record,
and what was rejected or shed is counted, once for each layer. With `Pool.Balanced` this is
`reports_complete`: while no batch is out, every layer that was requested stands on record, was
shed, was dropped by a salvage, or was given up by a stop.
-/

set_option autoImplicit false

namespace LayerCast

namespace Report

/-- The layers that stand on record in several reports. -/
def recorded (reports : List Report) : List Segment :=
  reports.flatMap fun r => r.records.map LayerRecord.segment

/-- The number of layers that were shed according to several reports. -/
def shedIn (reports : List Report) : Nat := (reports.map Report.shedLayers).sum

variable (r : Report) (rest : List Report)

@[simp] theorem recorded_cons :
    recorded (r :: rest) = r.records.map LayerRecord.segment ++ recorded rest := rfl

@[simp] theorem recorded_nil : recorded [] = [] := rfl

@[simp] theorem shedIn_cons : shedIn (r :: rest) = r.shedLayers + shedIn rest := List.sum_cons

@[simp] theorem shedIn_nil : shedIn [] = 0 := rfl

end Report

namespace Player

variable {p q r : Player} {now : Nat}

/-! ### The calls of a player -/

/-- The batch that a player has to request at a moment. -/
def asks (p : Player) : List Segment :=
  if !p.playing || p.pending.isSome || p.allDownloaded || !p.buffer.hasRoom p.nextDuration then []
  else
    match p.policy.next p.manifest p.buffer p.holdings with
    | .ok (batch, _) => batch
    | .error _ => []

/-- The calls of a player that looks whether it can request the next batch. -/
def streamCalls (p : Player) (now : Nat) : List Pool.Call :=
  if p.asks = [] then [] else [.enqueue now p.asks]

/-- The calls that follow from what the pool has told. -/
def hearCalls (p : Player) (now : Nat) : Option PoolEvent → List Pool.Call
  | some .batchComplete =>
    let (finished, pool) := p.pool.takeFinished
    let p := { p with pool }.takeIn now finished
    .takeFinished :: { p with pending := none }.streamCalls now
  | _ => []

/-- The pool has a turn, and what it tells is carried out. -/
def pollCalls (p : Player) (now id : Nat) (w : Wake) : List Pool.Call :=
  .poll now id w ::
    match p.pool.poll now id w with
    | .ok (e, pool) => { p with pool }.hearCalls now e
    | .error _ => []

/-- A player with a tick behind it, if the buffer has covered it. -/
def ticked (p : Player) : Player :=
  match p.buffer.consume? p.settings.tick with
  | some buffer => ({ p with buffer }.played p.settings.tick).2
  | none => p

/-- The calls of a tick. -/
def tickCalls (p : Player) (now : Nat) : List Pool.Call :=
  if p.runsLow then
    .salvage ::
      match p.pool.salvage with
      | .ok (s, pool) => ({ p with pool }.takeSalvage now s).ticked.streamCalls now
      | .error _ => []
  else p.ticked.streamCalls now

/-- The calls on a cue. What the pool still has to tell comes before a tick, and is told in a turn
of any fetcher. -/
def cueCalls (p : Player) : Cue → List Pool.Call
  | .network now id w => p.pollCalls now id w
  | .tick now => if p.pool.events = [] then p.tickCalls now else p.pollCalls now 0 .tick
  | .sent closed => [.sent closed]

/-- The calls of a deed. -/
def deedCalls (p : Player) : Deed → List Pool.Call
  | .play now =>
    if p.playing then []
    else { p with playing := true, allDownloaded := false, started := some now }.streamCalls now
  | .cue c => p.cueCalls c
  | .stop _ => if p.playing then [.stop] else []
  | .takeReport | .takeNotices | .adopt _ => []

/-- The calls of a life. -/
def calls (p : Player) : List Deed → List Pool.Call
  | [] => []
  | deed :: rest =>
    p.deedCalls deed ++
      match p.does {} deed with
      | .ok (_, p) => p.calls rest
      | .error _ => []

/-- The report that a deed takes, if it takes one. -/
def handedOver (p : Player) : Deed → List Report
  | .takeReport => [p.report]
  | .play _ | .cue _ | .stop _ | .takeNotices | .adopt _ => []

/-- The reports of a life: those that were taken, and the one that is written at its end. -/
def reports (p : Player) : List Deed → List Report
  | [] => [p.report]
  | deed :: rest =>
    p.handedOver deed ++
      match p.does {} deed with
      | .ok (_, p) => p.reports rest
      | .error _ => []

/-! ### Reports and accounts -/

/-- What is new on an account is new in the reports: what was returned stands on record, and what
was shed is counted. -/
structure Mirrors (a b : Pool.Account) (before after : List Report) : Prop where
  returned : (a.returned ++ Report.recorded after).Perm (b.returned ++ Report.recorded before)
  shed : a.shed.length + Report.shedIn after = b.shed.length + Report.shedIn before

variable {a b c : Pool.Account} {before after later : List Report}

/-- What is mirrored in two steps is mirrored in both together. -/
theorem Mirrors.trans (hab : Mirrors a b before after) (hbc : Mirrors b c after later) :
    Mirrors a c before later where
  returned := by
    rw [List.perm_iff_count]
    intro s
    have hfirst := hab.returned.count_eq s
    have hsecond := hbc.returned.count_eq s
    simp only [List.count_append] at hfirst hsecond ⊢
    omega
  shed := by
    have hfirst := hab.shed
    have hsecond := hbc.shed
    omega

/-- A report that is taken is kept, and the next one begins empty. -/
theorem Mirrors.taken (h : Mirrors a b [{}] after) (r : Report) :
    Mirrors a b [r] (r :: after) where
  returned := by
    rw [List.perm_iff_count]
    intro s
    have hcount := h.returned.count_eq s
    simp only [Report.recorded_cons, Report.recorded_nil, List.map_nil, List.append_nil,
      List.count_append] at hcount ⊢
    omega
  shed := by
    have hsum := h.shed
    simp only [Report.shedIn_cons, Report.shedIn_nil] at hsum ⊢
    omega

/-- A player that begins without an account and without a report has told everything. -/
theorem Mirrors.ofNew (h : Mirrors {} a [{}] after) :
    (Report.recorded after).Perm a.returned ∧ Report.shedIn after = a.shed.length := by
  have hreturned : (Report.recorded after).Perm (a.returned ++ []) := h.returned
  have hshed : 0 + Report.shedIn after = a.shed.length + 0 := h.shed
  exact ⟨by rwa [List.append_nil] at hreturned, by omega⟩

/-- Where nothing is returned or shed, nothing is recorded or counted. -/
theorem mirrors_silent {r s : Report} (hreturned : b.returned = a.returned)
    (hshed : b.shed = a.shed) (hrecords : s.records = r.records)
    (hlayers : s.shedLayers = r.shedLayers) :
    Mirrors a b [r] [s] where
  returned := by simp [hreturned, hrecords]
  shed := by simp [hshed, hlayers]

/-- Deliveries that are returned are put on record. -/
theorem mirrors_returned {r s : Report} {ds : List Delivery}
    (hreturned : b.returned = ds.map Delivery.segment ++ a.returned) (hshed : b.shed = a.shed)
    (hrecords : s.records = r.records ++ ds.map Delivery.toRecord)
    (hlayers : s.shedLayers = r.shedLayers) : Mirrors a b [r] [s] where
  returned := by
    have hsegments : (ds.map Delivery.toRecord).map LayerRecord.segment =
        ds.map Delivery.segment := List.map_map ..
    rw [List.perm_iff_count]
    intro x
    simp only [Report.recorded_cons, Report.recorded_nil, List.append_nil, hreturned, hrecords,
      List.map_append, hsegments, List.count_append]
    omega
  shed := by simp [hshed, hlayers]

/-- A player has made these calls of its pool, and its report mirrors what has come of them. -/
def Deals (p : Player) (calls : List Pool.Call) (q : Player) : Prop :=
  ∀ a, ∃ b, p.pool.performAll a calls = .ok (b, q.pool) ∧ Mirrors a b [p.report] [q.report]

/-- The calls of two steps are made one after the other. -/
theorem Deals.trans {first second : List Pool.Call} (hp : p.Deals first q)
    (hq : q.Deals second r) : p.Deals (first ++ second) r := by
  intro a
  obtain ⟨b, hfirst, hab⟩ := hp a
  obtain ⟨c, hsecond, hbc⟩ := hq b
  exact ⟨c, Pool.performAll_append hfirst hsecond, hab.trans hbc⟩

/-- A player that makes one call. -/
theorem deals_one {call : Pool.Call} (h : ∀ a, ∃ b, p.pool.perform a call = .ok (b, q.pool) ∧
    Mirrors a b [p.report] [q.report]) : p.Deals [call] q := by
  intro a
  obtain ⟨b, hcall, hmirrors⟩ := h a
  exact ⟨b, Checked.bind_eq_ok_iff.mpr ⟨_, hcall, rfl⟩, hmirrors⟩

/-- A player that leaves its pool alone. -/
theorem deals_nothing (hpool : q.pool = p.pool) (hrecords : q.report.records = p.report.records)
    (hlayers : q.report.shedLayers = p.report.shedLayers) : p.Deals [] q := by
  intro a
  refine ⟨a, ?_, mirrors_silent rfl rfl hrecords hlayers⟩
  rw [hpool]
  rfl

/-! ### Requesting -/

/-- Nothing is requested outside of playback, and nothing behind the end of the content. -/
theorem streamCalls_of_over (h : p.playing = false ∨ p.allDownloaded = true) (now : Nat) :
    p.streamCalls now = [] := by
  have hasks : p.asks = [] := by
    unfold asks
    rcases h with h | h <;> simp [h]
  rw [streamCalls, if_pos hasks]

/-- What a player requests it hands to its pool. -/
theorem deals_stream (h : p.stream now = .ok q) : p.Deals (p.streamCalls now) q := by
  unfold Player.stream at h
  split at h
  · rename_i hwaits
    obtain rfl := Except.ok.inj h
    have hasks : p.asks = [] := if_pos hwaits
    rw [streamCalls, if_pos hasks]
    exact deals_nothing rfl rfl rfl
  · rename_i hready
    obtain ⟨⟨batch, policy⟩, asked, h⟩ := Checked.bind_eq_ok_iff.mp h
    have hasks : p.asks = batch := by
      rw [asks, if_neg hready, asked]
    -- An empty batch is no call: the pool hears nothing of it.
    cases batch with
    | nil =>
        obtain ⟨exhausted, -, h⟩ := Checked.bind_eq_ok_iff.mp h
        obtain rfl := Except.ok.inj h
        rw [streamCalls, if_pos hasks]
        cases exhausted <;> exact deals_nothing rfl rfl rfl
    | cons first rest =>
        obtain rfl := Except.ok.inj h
        rw [streamCalls, hasks, if_neg (List.cons_ne_nil first rest)]
        exact deals_one fun a => ⟨_, rfl, mirrors_silent rfl rfl rfl rfl⟩

/-! ### Taking in -/

/-- What a salvage finds usable is put on record, and the policy is told of every layer that was
dropped before it hears of what was saved. -/
theorem takeSalvage_tells (p : Player) (now : Nat) (s : Salvage) :
    (p.takeSalvage now s).report =
        { p.report with records := p.report.records ++ s.usable.map Delivery.toRecord } ∧
      (p.takeSalvage now s).policy =
        (s.usable.map Delivery.throughput).foldl Adaptation.delivered
          (s.dropped.foldl Adaptation.abandoned p.policy) := by
  unfold Player.takeSalvage
  split
  · rename_i hnothing
    -- Nothing was saved and nothing was dropped.
    rw [Salvage.isEmpty, Bool.and_eq_true, List.isEmpty_iff, List.isEmpty_iff] at hnothing
    rw [hnothing.1, hnothing.2]
    exact ⟨by simp, rfl⟩
  · obtain ⟨buffer, holdings, notices, -, htaken⟩ := takeIn_form { p with
      policy := s.dropped.foldl Adaptation.abandoned p.policy
      pending := none } now s.usable
    rw [htaken]
    exact ⟨rfl, rfl⟩

/-- The finished layers of the pool are taken in. -/
theorem deals_takeFinished (p : Player) (now : Nat) :
    p.Deals [.takeFinished]
      { ({ p with pool := p.pool.takeFinished.2 } : Player).takeIn now p.pool.takeFinished.1 with
        pending := none } := by
  obtain ⟨buffer, holdings, notices, -, htaken⟩ :=
    takeIn_form { p with pool := p.pool.takeFinished.2 } now p.pool.takeFinished.1
  rw [htaken]
  exact deals_one fun a => ⟨{ a with
    returned := p.pool.takeFinished.1.map Delivery.segment ++ a.returned }, rfl,
    mirrors_returned rfl rfl rfl rfl⟩

/-- What is usable of a batch is taken in. -/
theorem deals_salvage {s : Salvage} {r : Pool} (hsalvage : p.pool.salvage = .ok (s, r))
    (now : Nat) : p.Deals [.salvage] (({ p with pool := r } : Player).takeSalvage now s) := by
  have hreport := (takeSalvage_tells { p with pool := r } now s).1
  refine deals_one fun a => ⟨{ a with
    returned := s.usable.map Delivery.segment ++ a.returned
    dropped := s.dropped ++ a.dropped }, ?_, ?_⟩
  · rw [(takeSalvage_eq ..).1]
    exact Checked.bind_eq_ok_iff.mpr ⟨(s, r), hsalvage, rfl⟩
  · exact mirrors_returned rfl rfl (by rw [hreport]) (by rw [hreport])

/-! ### What the pool tells -/

/-- A turn of the pool, and what follows from what it tells. -/
theorem deals_poll {id : Nat} {w : Wake} {e : Option PoolEvent} {r : Pool} {t : Ticked}
    (hpoll : p.pool.poll now id w = .ok (e, r))
    (ht : ({ p with pool := r } : Player).hear now e = .ok t) :
    p.Deals (p.pollCalls now id w) t.player := by
  have hcalls : p.pollCalls now id w =
      [.poll now id w] ++ ({ p with pool := r } : Player).hearCalls now e := by
    rw [pollCalls, hpoll]
    rfl
  have hcall : ∀ a, p.pool.perform a (.poll now id w) =
      .ok ({ a with shed := Pool.reported e ++ a.shed }, r) := fun a =>
    Checked.bind_eq_ok_iff.mpr ⟨(e, r), hpoll, rfl⟩
  rw [hcalls]
  cases e with
  | none =>
      obtain rfl := Except.ok.inj ht
      exact deals_one fun a => ⟨_, hcall a, mirrors_silent rfl rfl rfl rfl⟩
  | some e =>
      obtain ⟨q, hq, ht⟩ := Checked.bind_eq_ok_iff.mp ht
      obtain rfl := Except.ok.inj ht
      cases e with
      | batchComplete =>
          have htold : p.Deals [.poll now id w] { p with pool := r } :=
            deals_one fun a => ⟨_, hcall a, mirrors_silent rfl rfl rfl rfl⟩
          exact htold.trans ((deals_takeFinished { p with pool := r } now).trans (deals_stream hq))
      | layersShed failed shed =>
          obtain rfl := Except.ok.inj hq
          refine deals_one fun a => ⟨_, hcall a, by rfl, ?_⟩
          -- The rejected layer counts as one of those that were shed.
          simp only [Report.shedIn_cons, Report.shedIn_nil, Pool.reported, List.length_append,
            List.length_cons]
          omega

/-- What the pool still has to tell is told in a turn of any fetcher. -/
theorem poll_of_news {pool : Pool} {e : PoolEvent} {rest : List PoolEvent}
    (hnews : pool.events = e :: rest) (now id : Nat) (w : Wake) :
    pool.poll now id w = .ok (some e, { pool with events := rest }) := by
  simp [Pool.poll, Pool.takeEvent?, hnews]

/-! ### Ticks -/

/-- What the buffer does not cover is not consumed. -/
theorem ticked_of_short (h : p.buffer.consume? p.settings.tick = none) : p.ticked = p := by
  rw [ticked, h]

/-- A tick that the buffer has covered. -/
theorem deals_consumed {buffer : PlayoutBuffer} {t : Ticked}
    (hbuffer : p.buffer.consume? p.settings.tick = some buffer)
    (ht : p.consumed now buffer = .ok t) : p.Deals (p.ticked.streamCalls now) t.player := by
  obtain ⟨q, hstream, ht⟩ := Checked.bind_eq_ok_iff.mp ht
  obtain rfl := Except.ok.inj ht
  have hticked : p.ticked = (({ p with buffer } : Player).played p.settings.tick).2 := by
    rw [ticked, hbuffer]
  have hplayed : p.Deals [] p.ticked := by
    rw [hticked]
    exact deals_nothing rfl rfl rfl
  have hrequests : p.ticked.stream now = .ok q := by
    rw [hticked]
    exact hstream
  exact hplayed.trans (deals_stream hrequests)

/-- A tick that the buffer covers or that is a stall. -/
theorem deals_consumeOrStall {t : Ticked} (ht : p.consumeOrStall now = .ok t) :
    p.Deals (p.ticked.streamCalls now) t.player := by
  unfold Player.consumeOrStall at ht
  split at ht
  · rename_i buffer hbuffer
    exact deals_consumed hbuffer ht
  · rename_i hshort
    obtain ⟨q, hstall, ht⟩ := Checked.bind_eq_ok_iff.mp ht
    obtain rfl := Except.ok.inj ht
    obtain ⟨stalls, notices, hstream⟩ := stream_of_stall hstall
    have hnoted : p.Deals []
        { p with report := { p.report with stalls }, notices } := deals_nothing rfl rfl rfl
    rw [ticked_of_short hshort]
    -- What is requested does not depend on what was noted.
    exact hnoted.trans (deals_stream hstream)

/-- Where a tick ends playback, or finds none, no call is made. -/
theorem tickCalls_of_over (h : p.playing = false ∨ p.allDownloaded = true) (now : Nat) :
    p.tickCalls now = [] := by
  have hlow : p.runsLow = false := by rcases h with h | h <;> simp [runsLow, h]
  rw [tickCalls, hlow, if_neg Bool.false_ne_true]
  refine streamCalls_of_over ?_ now
  unfold ticked
  split
  · exact h
  · exact h

/-- One tick. -/
theorem deals_consume {t : Ticked} (ht : p.consume now = .ok t) :
    p.Deals (p.tickCalls now) t.player := by
  -- Only a tick that runs out of time makes a call before it streams.
  cases consume_cases ht with
  | stopped idle =>
      rw [tickCalls_of_over (.inl idle)]
      exact deals_nothing rfl rfl rfl
  | ended all =>
      rw [tickCalls_of_over (.inr all)]
      exact deals_nothing rfl rfl rfl
  | covered playing there ticked =>
      have hlow : p.runsLow = false := by simp [runsLow, there]
      rw [tickCalls, hlow, if_neg Bool.false_ne_true]
      exact deals_consumed there ticked
  | drained all =>
      rw [tickCalls_of_over (.inr all)]
      exact deals_nothing rfl rfl rfl
  | @underrun s r t playing more short saved ticked =>
      have hlow : p.runsLow = true := by simp [runsLow, playing, more, short]
      have hcalls : p.tickCalls now = [.salvage] ++
          (({ p with pool := r } : Player).takeSalvage now s).ticked.streamCalls now := by
        rw [tickCalls, hlow, if_pos rfl, saved]
        rfl
      rw [hcalls]
      exact (deals_salvage saved now).trans (deals_consumeOrStall ticked)

/-! ### Lives -/

/-- **One cue.** -/
theorem deals_heed {cue : Cue} {t : Ticked} (ht : p.heed cue = .ok t) :
    p.Deals (p.cueCalls cue) t.player := by
  cases cue with
  | network now id w =>
      obtain ⟨⟨e, r⟩, hpoll, ht⟩ := Checked.bind_eq_ok_iff.mp ht
      exact deals_poll hpoll ht
  | tick now =>
      rw [Player.heed] at ht
      -- An event of the pool is told first, and the tick is a poll for the pool then.
      cases hevents : p.pool.events with
      | nil =>
          rw [Pool.announce_nil hevents] at ht
          rw [cueCalls, if_pos hevents]
          exact deals_consume ht
      | cons e rest =>
          rw [Pool.announce_cons hevents] at ht
          rw [cueCalls, if_neg (by simp [hevents])]
          exact deals_poll (poll_of_news hevents now 0 .tick) ht
  | sent closed =>
      obtain rfl := Except.ok.inj ht
      exact deals_one fun a => ⟨_, rfl, mirrors_silent rfl rfl rfl rfl⟩

/-- To play is to stream, unless the player plays already. -/
theorem deals_play (h : p.play now = .ok q) : p.Deals (p.deedCalls (.play now)) q := by
  unfold Player.play at h
  split at h
  · rename_i hplaying
    obtain rfl := Except.ok.inj h
    rw [deedCalls, if_pos hplaying]
    exact deals_nothing rfl rfl rfl
  · rename_i hidle
    have hstarted : p.Deals [] (({ p with
        playing := true, allDownloaded := false, started := some now } : Player).tell now
          .started) := deals_nothing rfl rfl rfl
    rw [deedCalls, if_neg hidle]
    exact hstarted.trans (deals_stream h)

/-- To stop is one call at most, and no report mentions what it drops. -/
theorem deals_stop (p : Player) (now : Nat) : p.Deals (p.deedCalls (.stop now)) (p.stop now) := by
  unfold Player.stop deedCalls
  cases p.playing with
  | false => exact deals_nothing rfl rfl rfl
  | true => exact deals_one fun a => ⟨_, rfl, mirrors_silent rfl rfl rfl rfl⟩

variable {past past' : Past}

/-- **One deed**, unless the report is taken. -/
theorem deals_does {deed : Deed} (hkeeps : deed ≠ .takeReport)
    (h : p.does past deed = .ok (past', q)) : p.Deals (p.deedCalls deed) q := by
  cases deed with
  | play now =>
      obtain ⟨q', hplay, h⟩ := Checked.bind_eq_ok_iff.mp h
      obtain ⟨-, rfl⟩ := Prod.mk.inj (Except.ok.inj h)
      exact deals_play hplay
  | cue c =>
      obtain ⟨t, ht, h⟩ := Checked.bind_eq_ok_iff.mp h
      obtain ⟨-, rfl⟩ := Prod.mk.inj (Except.ok.inj h)
      exact deals_heed ht
  | stop now =>
      obtain ⟨-, rfl⟩ := Prod.mk.inj (Except.ok.inj h)
      exact deals_stop p now
  | takeReport => exact absurd rfl hkeeps
  | takeNotices | adopt policy =>
      obtain ⟨-, rfl⟩ := Prod.mk.inj (Except.ok.inj h)
      exact deals_nothing rfl rfl rfl

/-- What a player does is not a matter of its past. -/
theorem does_of_past {deed : Deed} (h : p.does past deed = .ok (past', q)) :
    ∃ later, p.does {} deed = .ok (later, q) := by
  cases deed with
  | play now =>
      obtain ⟨q', hplay, h⟩ := Checked.bind_eq_ok_iff.mp h
      obtain ⟨-, rfl⟩ := Prod.mk.inj (Except.ok.inj h)
      exact ⟨_, Checked.bind_eq_ok_iff.mpr ⟨q', hplay, rfl⟩⟩
  | cue c =>
      obtain ⟨t, ht, h⟩ := Checked.bind_eq_ok_iff.mp h
      obtain ⟨-, rfl⟩ := Prod.mk.inj (Except.ok.inj h)
      exact ⟨_, Checked.bind_eq_ok_iff.mpr ⟨t, ht, rfl⟩⟩
  | stop | takeReport | takeNotices | adopt =>
      obtain ⟨-, rfl⟩ := Prod.mk.inj (Except.ok.inj h)
      exact ⟨_, rfl⟩

/-- Nothing is handed over unless the report is taken. -/
theorem handedOver_of_ne {deed : Deed} (h : deed ≠ .takeReport) : p.handedOver deed = [] := by
  cases deed with
  | takeReport => exact absurd rfl h
  | play | cue | stop | takeNotices | adopt => rfl

/-- A life begins with the calls and the reports of its first deed. -/
theorem life_cons {deed : Deed} (rest : List Deed) (h : p.does past deed = .ok (past', q)) :
    p.calls (deed :: rest) = p.deedCalls deed ++ q.calls rest ∧
      p.reports (deed :: rest) = p.handedOver deed ++ q.reports rest := by
  obtain ⟨later, hplain⟩ := does_of_past h
  rw [calls, reports, hplain]
  exact ⟨rfl, rfl⟩

/-- **A life.** Its calls lead to the pool that is left, and its reports mirror what has come of
them. -/
theorem dealt_live (deeds : List Deed) (h : p.live past deeds = .ok (past', q))
    (a : Pool.Account) :
    ∃ b, p.pool.performAll a (p.calls deeds) = .ok (b, q.pool) ∧
      Mirrors a b [p.report] (p.reports deeds) := by
  -- Induction on the deeds, from any player with any past and any account.
  induction deeds generalizing p past a with
  | nil =>
      obtain ⟨-, rfl⟩ := Prod.mk.inj (Except.ok.inj h)
      exact ⟨a, rfl, mirrors_silent rfl rfl rfl rfl⟩
  | cons deed rest ih =>
      obtain ⟨⟨between, p'⟩, hdeed, hrest⟩ := Checked.bind_eq_ok_iff.mp h
      obtain ⟨hcalls, hreports⟩ := life_cons rest hdeed
      rw [hcalls, hreports]
      by_cases htakes : deed = .takeReport
      · subst htakes
        obtain ⟨-, rfl⟩ := Prod.mk.inj (Except.ok.inj hdeed)
        obtain ⟨b, hlater, hmirrors⟩ := ih hrest a
        exact ⟨b, hlater, hmirrors.taken p.report⟩
      · obtain ⟨b, hfirst, hab⟩ := deals_does htakes hdeed a
        obtain ⟨c, hlater, hbc⟩ := ih hrest b
        rw [handedOver_of_ne htakes, List.nil_append]
        exact ⟨c, Pool.performAll_append hfirst hlater, hab.trans hbc⟩

/-- A life without taking a report has the one that is written at its end. -/
theorem reports_of_kept (deeds : List Deed) (hkeeps : .takeReport ∉ deeds)
    (h : p.live past deeds = .ok (past', q)) : p.reports deeds = [q.report] := by
  induction deeds generalizing p past with
  | nil =>
      obtain ⟨-, rfl⟩ := Prod.mk.inj (Except.ok.inj h)
      rfl
  | cons deed rest ih =>
      obtain ⟨⟨between, p'⟩, hdeed, hrest⟩ := Checked.bind_eq_ok_iff.mp h
      have hother : deed ≠ .takeReport := fun htakes => hkeeps (htakes ▸ List.mem_cons_self)
      rw [(life_cons rest hdeed).2, handedOver_of_ne hother, List.nil_append]
      exact ih (fun hlater => hkeeps (List.mem_cons_of_mem _ hlater)) hrest

/-- **Every layer that was requested is accounted for.** The calls that a player has made of its
pool lead to the pool that it has. What the pool has returned stands on record in the reports, each
layer once, and they count each layer that was rejected and each one that was shed with it. What was
dropped by a salvage is what the policy is told to be abandoned. So while no batch is out, the
layers that were requested are as many as those on record, those that were shed, those that salvages
have dropped, and those that a stop has given up. -/
theorem reports_complete {settings : PlayerSettings} {m : Manifest} {faces : Nat}
    {deeds : List Deed} (hnew : Player.ofSettings settings m faces = .ok (.ok p))
    (hlive : p.live {} deeds = .ok (past, q)) :
    ∃ a, p.pool.performAll {} (p.calls deeds) = .ok (a, q.pool) ∧
      a.enqueued.Perm (q.pool.contents ++ (a.returned ++ a.shed ++ a.dropped ++ a.discarded)) ∧
      (Report.recorded (p.reports deeds)).Perm a.returned ∧
      Report.shedIn (p.reports deeds) = a.shed.length ∧
      (∀ (r : Player) (now : Nat) (s : Salvage), (r.takeSalvage now s).policy =
        (s.usable.map Delivery.throughput).foldl Adaptation.delivered
          (s.dropped.foldl Adaptation.abandoned r.policy)) ∧
      (q.pending = none → a.enqueued.length =
        (Report.recorded (p.reports deeds)).length + Report.shedIn (p.reports deeds) +
          a.dropped.length + a.discarded.length) ∧
      (q.pending = none → .takeReport ∉ deeds → a.enqueued.length =
        q.report.records.length + q.report.shedLayers + a.dropped.length + a.discarded.length) := by
  have hone : q.OneBatch := oneBatch_live deeds (oneBatch_ofSettings hnew) hlive
  obtain ⟨policy, pool, -, hpool, hp⟩ := ofSettings_eq_ok hnew
  have hbalanced : p.pool.Balanced {} := by
    rw [hp]
    exact Pool.balanced_ofSettings hpool
  have hreport : p.report = {} := by rw [hp]
  obtain ⟨a, hcalls, hmirrors⟩ := dealt_live deeds hlive {}
  obtain ⟨-, hbalance⟩ := Pool.performAll_balanced _ hbalanced hcalls
  rw [hreport] at hmirrors
  obtain ⟨hrecorded, hshed⟩ := hmirrors.ofNew
  have hlengths : q.pending = none → a.enqueued.length =
      (Report.recorded (p.reports deeds)).length + Report.shedIn (p.reports deeds) +
        a.dropped.length + a.discarded.length := by
    intro hnone
    -- While no batch is out the pool holds nothing.
    have hlength := hbalance.length_eq
    rw [(hone.resting hnone).1] at hlength
    simp only [Pool.Account.gone, List.nil_append, List.length_append] at hlength
    rw [hrecorded.length_eq, hshed, hlength]
  refine ⟨a, hcalls, hbalance, hrecorded, hshed, fun r now s => (takeSalvage_tells r now s).2,
    hlengths, fun hnone hkeeps => ?_⟩
  have hreports := reports_of_kept deeds hkeeps hlive
  simpa [hreports] using hlengths hnone

/-- A policy that asks for three layers of every segment, each of a second. -/
def threeLayers : Foreign :=
  let layer (number level : Nat) : Segment :=
    { Pool.sampleLayer level with number, duration := 1000000000 }
  { name := "three layers"
    decision := fun n =>
      { batch := [layer n 0, layer n 1, layer n 2]
        number := n
        numbered := by simp [layer] }
    isExhausted := fun _ => false }

/-- The base layer of the first segment arrives, and the other two are dropped by a salvage. The
base layer of the second segment is refused, and playback is stopped with the third one out. -/
def mixedDeeds : List Deed :=
  [.adopt (.foreign threeLayers), .play 0, .cue (.sent fun _ => false),
    .cue (replyCue 10 "http://a/l0"), .cue (.tick 2000000000), .cue (.sent fun _ => false),
    .cue (.network 2000000010 0 (.reply ⟨⟨contentName "http://a/l0", 0⟩, .nack .rejected⟩)),
    .cue (.network 2000000020 0 .tick), .stop 2500000000]

/-- Of nine layers that were requested one stands on record, three were shed, two were dropped, and
three were given up. -/
theorem reports_complete_sample :
    ∃ p past q a, Player.ofSettings sampleSettings sampleManifest 1 = .ok (.ok p) ∧
      p.live {} mixedDeeds = .ok (past, q) ∧ .takeReport ∉ mixedDeeds ∧ q.pending = none ∧
      p.pool.performAll {} (p.calls mixedDeeds) = .ok (a, q.pool) ∧
      q.report.records.length = 1 ∧ q.report.shedLayers = 3 ∧ a.dropped.length = 2 ∧
      a.discarded.length = 3 ∧ a.enqueued.length = 9 := by
  have hvalue : ((Player.ofSettings sampleSettings sampleManifest 1).toOption.bind fun r =>
      r.toOption.bind fun p => (p.live {} mixedDeeds).toOption.bind fun r =>
        (p.pool.performAll {} (p.calls mixedDeeds)).toOption.map fun s =>
          (r.2.pending, r.2.report.records.length, r.2.report.shedLayers, s.1.dropped.length,
            s.1.discarded.length)) =
      some (none, 1, 3, 2, 3) := by
    decide +kernel
  obtain ⟨made, hnew, hvalue⟩ := Checked.exists_of_bind_toOption hvalue
  obtain ⟨p, rfl, hmade⟩ := Checked.exists_of_bind_toOption hvalue
  obtain ⟨⟨past, q⟩, hlive, hvalue⟩ := Checked.exists_of_bind_toOption hmade
  obtain ⟨⟨b, r⟩, hb, hvalues⟩ := Checked.exists_of_map_toOption hvalue
  simp only [Prod.mk.injEq] at hvalues
  obtain ⟨hnone, hrecords, hshed, hdropped, hdiscarded⟩ := hvalues
  have hkeeps : .takeReport ∉ mixedDeeds := by simp [mixedDeeds]
  obtain ⟨a, hcalls, -, -, -, -, -, hlength⟩ := reports_complete hnew hlive
  obtain ⟨rfl, -⟩ := Prod.mk.inj (Except.ok.inj (hb.symm.trans hcalls))
  refine ⟨p, past, q, b, hnew, hlive, hkeeps, hnone, hcalls, hrecords, hshed, hdropped, hdiscarded,
    ?_⟩
  rw [hlength hnone hkeeps, hrecords, hshed, hdropped, hdiscarded]

end Player

end LayerCast
