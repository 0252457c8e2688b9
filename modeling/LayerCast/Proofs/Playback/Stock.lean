import LayerCast.Proofs.Playback.Gapless
import LayerCast.Proofs.Playback.Life

/-!
# `LayerCast.Proofs.Playback.Stock`: buffer and playout queue agree

The playback time that is in store is kept twice. The buffer knows how much it is, and the playout
queue knows in which segments it lies. With what was played they make up the `Stock` of a player.

A stock changes in two ways only. A segment is credited, to the buffer and to the queue at once
(`Stock.Takes`), or time that is there is played, from both of them (`Stock.Spends`). Whatever else
a player does leaves it as it is (`stock_…`), and what happens on a cue is one of the first and then
one of the second kind (`heed_stock`). Neither needs a policy that is in step or segments of one
length, so that `stock_balanced` holds for every life of every player.
-/

set_option autoImplicit false

namespace LayerCast

/-! ### Stocks -/

/-- What a player has in store, and what it has played. -/
structure Stock where
  buffer : PlayoutBuffer
  queue : List Unplayed
  played : Nat

namespace Stock

/-- The time of a segment goes into the buffer, and the segment into the queue. -/
def credit (s : Stock) (u : Unplayed) : Stock :=
  { s with
    buffer := { s.buffer with filled := s.buffer.filled + u.left }
    queue := Holdings.insertUnplayed u s.queue }

/-- Time is played. -/
def play (s : Stock) (time : Nat) : Stock :=
  { buffer := { s.buffer with filled := s.buffer.filled - time }
    queue := (Holdings.playOut time s.queue).2
    played := s.played + time }

/-- At most one segment is credited, and there is room for it. -/
inductive Takes (s : Stock) : List Unplayed → Stock → Prop
  | nothing : Takes s [] s
  | segment (u : Unplayed) (room : s.buffer.hasRoom u.left = true) : Takes s [u] (s.credit u)

/-- Time is played that is there, or none. -/
inductive Spends (s : Stock) : Stock → Prop
  | nothing : Spends s s
  | time (time : Nat) (there : time ≤ s.buffer.filled) : Spends s (s.play time)

/-- A stock in which buffer and queue agree, and which has come from what was credited. -/
structure Balanced (capacity : Nat) (past : Past) (s : Stock) : Prop where
  queue : (s.queue.map Unplayed.left).sum = s.buffer.filled
  size : s.buffer.capacity = capacity
  bound : s.buffer.filled ≤ capacity
  balance : past.played + s.played + s.buffer.filled = (past.credited.map Unplayed.left).sum

variable {capacity : Nat} {past : Past} {s r : Stock}

/-- There is room for what is credited. -/
theorem Takes.room {us : List Unplayed} (hr : s.Takes us r) {u : Unplayed} (hu : u ∈ us) :
    s.buffer.filled + u.left ≤ s.buffer.capacity := by
  cases hr with
  | nothing => cases hu
  | segment v room =>
      obtain rfl := List.mem_singleton.mp hu
      exact of_decide_eq_true room

/-- Crediting a segment that fits keeps the balance. -/
theorem Balanced.takes (h : s.Balanced capacity past) {us : List Unplayed} (hr : s.Takes us r) :
    r.Balanced capacity { past with credited := us ++ past.credited } := by
  obtain ⟨hqueue, hsize, hbound, hbalance⟩ := h
  cases hr with
  | nothing => exact ⟨hqueue, hsize, hbound, hbalance⟩
  | segment u room =>
      have hfits := (Takes.segment u room).room List.mem_cons_self
      refine ⟨?_, hsize, hsize ▸ hfits, ?_⟩
      · -- Wherever the segment was put, the queue has its time in addition.
        show ((Holdings.insertUnplayed u s.queue).map Unplayed.left).sum = s.buffer.filled + u.left
        have hsum := ((Holdings.insertUnplayed_perm u s.queue).map Unplayed.left).sum_nat
        rw [hsum, List.map_cons, List.sum_cons, hqueue, Nat.add_comm]
      · show past.played + s.played + (s.buffer.filled + u.left) = _
        rw [List.singleton_append, List.map_cons, List.sum_cons, ← hbalance]
        omega

/-- Playing time that is there keeps the balance. -/
theorem Balanced.spends (h : s.Balanced capacity past) (hr : s.Spends r) :
    r.Balanced capacity past := by
  obtain ⟨hqueue, hsize, hbound, hbalance⟩ := h
  cases hr with
  | nothing => exact ⟨hqueue, hsize, hbound, hbalance⟩
  | time time there =>
      refine ⟨?_, hsize, Nat.le_trans (Nat.sub_le _ _) hbound, ?_⟩
      · show ((Holdings.playOut time s.queue).2.map Unplayed.left).sum = s.buffer.filled - time
        rw [Holdings.sum_playOut (hqueue.symm ▸ there), hqueue]
      · show past.played + (s.played + time) + (s.buffer.filled - time) = _
        omega

end Stock

namespace Player

variable {p q : Player} {now : Nat}

/-- What a player has in store, and what it has played according to its report. -/
def stock (p : Player) : Stock :=
  { buffer := p.buffer, queue := p.holdings.playout, played := p.report.played }

/-! ### Requesting -/

/-- Requesting leaves the stock. -/
theorem stock_stream (h : p.stream now = .ok q) : q.stock = p.stock := by
  cases stream_cases h <;> rfl

/-- To begin takes nothing from the stock, and brings nothing. -/
theorem stock_play (h : p.play now = .ok q) : q.stock = p.stock := by
  unfold Player.play at h
  split at h
  · obtain rfl := Except.ok.inj h
    rfl
  · exact (stock_stream h).trans rfl

/-- A stall leaves the stock as it is. -/
theorem stock_stall (h : p.stall now = .ok q) : q.stock = p.stock := by
  obtain ⟨stalls, notices, hstream⟩ := stream_of_stall h
  exact (stock_stream hstream).trans rfl

/-- To stop leaves the stock as it is, since what is queued stays queued. -/
theorem stock_stop (p : Player) (now : Nat) : (p.stop now).stock = p.stock := by
  unfold Player.stop
  split <;> rfl

/-! ### Taking in -/

/-- Whether a segment can be queued depends on what was played and what is queued. -/
theorem isSome_schedule? (h : Holdings) (number time : Nat) :
    (h.schedule? number time).isSome =
      !(h.isPlayed number || h.playout.any (·.number == number)) := by
  unfold Holdings.schedule?
  cases h.isPlayed number || h.playout.any (·.number == number) <;> rfl

/-- A segment for which there is room is credited to buffer and queue, or to neither of them. -/
theorem credit_takes (p : Player) (number duration : Nat) :
    p.stock.Takes
      (if p.buffer.hasRoom duration && (p.holdings.schedule? number duration).isSome then
        [⟨number, duration⟩] else [])
      (p.credit number duration).stock := by
  unfold Player.credit
  by_cases hroom : p.buffer.hasRoom duration = true
  · rw [hroom, Bool.true_and, if_pos rfl]
    cases hschedule : p.holdings.schedule? number duration with
    | none => exact .nothing
    | some holdings =>
        -- There is room, so the buffer takes the time.
        have hadd : p.buffer.add? duration =
            some { p.buffer with filled := p.buffer.filled + duration } :=
          PlayoutBuffer.add?_eq_some_iff.mpr ⟨of_decide_eq_true hroom, rfl⟩
        have hqueue : holdings.playout =
            Holdings.insertUnplayed ⟨number, duration⟩ p.holdings.playout := by
          unfold Holdings.schedule? at hschedule
          split at hschedule
          · cases hschedule
          · obtain rfl := Option.some.inj hschedule
            rfl
        have hstock : ({ p with
            holdings
            buffer := (p.buffer.add? duration).getD p.buffer } : Player).stock =
            p.stock.credit ⟨number, duration⟩ := by
          rw [hadd]
          show Stock.mk _ holdings.playout _ = _
          rw [hqueue]
          rfl
        simp only [Option.isSome_some, if_true]
        rw [hstock]
        exact .segment ⟨number, duration⟩ hroom
  · rw [if_neg hroom, Bool.eq_false_iff.mpr hroom]
    exact .nothing

/-- Taking in deliveries credits what `credits` says. -/
theorem takeIn_takes (p : Player) (now : Nat) (ds : List Delivery) :
    p.stock.Takes (p.credits ds) (p.takeIn now ds).stock := by
  cases ds with
  | nil => exact .nothing
  | cons d rest =>
      obtain ⟨records, notices, -, hfold⟩ := foldl_takeInLayer now d.segment.number (d :: rest) p
      obtain ⟨held, hheld⟩ := Holdings.foldl_recorded_eq d.segment.number
        (((d :: rest).map Delivery.segment).map Segment.level) p.holdings
      -- What is recorded has to do with neither the buffer nor the queue.
      rw [hheld] at hfold
      unfold Player.takeIn Player.credits
      simp only
      rw [hfold]
      cases !p.policy.isLayered || (d :: rest).any (·.segment.level == 0) with
      | false => exact .nothing
      | true =>
          have htakes := credit_takes { p with
            holdings := { p.holdings with held }
            policy := ((d :: rest).map Delivery.throughput).foldl Adaptation.delivered p.policy
            report := { p.report with records }
            notices } d.segment.number d.segment.duration
          rw [isSome_schedule?] at htakes ⊢
          exact htakes

/-! ### Playing -/

/-- Consumed time leaves buffer and queue together. -/
theorem stock_played (p : Player) {time : Nat} {buffer : PlayoutBuffer}
    (hbuffer : buffer = { p.buffer with filled := p.buffer.filled - time }) :
    (({ p with buffer } : Player).played time).2.stock = p.stock.play time := by
  subst hbuffer
  show Stock.mk _ (p.holdings.advance time).2.playout _ = _
  rw [Holdings.playout_advance]
  rfl

/-- A tick that the buffer has covered. -/
theorem consumed_spends {buffer : PlayoutBuffer}
    (hbuffer : p.buffer.consume? p.settings.tick = some buffer) {t : Ticked}
    (ht : p.consumed now buffer = .ok t) : p.stock.Spends t.player.stock := by
  obtain ⟨hthere, hleft⟩ := PlayoutBuffer.consume?_eq_some_iff.mp hbuffer
  obtain ⟨q, hstream, ht⟩ := Checked.bind_eq_ok_iff.mp ht
  obtain rfl := Except.ok.inj ht
  have hstock : q.stock = p.stock.play p.settings.tick :=
    (stock_stream hstream).trans (stock_played p hleft)
  show p.stock.Spends q.stock
  rw [hstock]
  exact .time p.settings.tick hthere

/-- A tick spends its time from the stock, or nothing if there is less. -/
theorem consumeOrStall_spends {t : Ticked} (ht : p.consumeOrStall now = .ok t) :
    p.stock.Spends t.player.stock := by
  unfold Player.consumeOrStall at ht
  split at ht
  · rename_i buffer hbuffer
    exact consumed_spends hbuffer ht
  · obtain ⟨q, hstall, ht⟩ := Checked.bind_eq_ok_iff.mp ht
    obtain rfl := Except.ok.inj ht
    show p.stock.Spends q.stock
    rw [stock_stall hstall]
    exact .nothing

/-! ### Cues -/

/-- A salvage brings in what it finds usable. -/
theorem takeSalvage_takes (p : Player) (now : Nat) (s : Salvage) :
    p.stock.Takes (p.credits s.usable) (p.takeSalvage now s).stock := by
  unfold Player.takeSalvage
  split
  · rename_i hempty
    rw [Salvage.isEmpty, Bool.and_eq_true, List.isEmpty_iff, List.isEmpty_iff] at hempty
    rw [hempty.1]
    exact .nothing
  · have htakes := takeIn_takes { p with
      policy := s.dropped.foldl Adaptation.abandoned p.policy
      pending := none } now s.usable
    -- Whether the policy is layered is all that crediting asks of it.
    have hcredits : ({ p with
        policy := s.dropped.foldl Adaptation.abandoned p.policy
        pending := none } : Player).credits s.usable = p.credits s.usable := by
      unfold Player.credits
      simp only [Adaptation.isLayered_of_nature (Adaptation.nature_abandoned s.dropped p.policy)]
    rw [hcredits] at htakes
    exact htakes

/-- What the pool tells brings in what it hands over. -/
theorem hear_takes {r : Pool} {e : Option PoolEvent} {t : Ticked}
    (ht : ({ p with pool := r } : Player).hear now e = .ok t) :
    p.stock.Takes (p.credits (r.handover e)) t.player.stock := by
  cases e with
  | none =>
      obtain rfl := Except.ok.inj ht
      exact .nothing
  | some e =>
      obtain ⟨q, hq, ht⟩ := Checked.bind_eq_ok_iff.mp ht
      obtain rfl := Except.ok.inj ht
      cases e with
      | batchComplete =>
          show p.stock.Takes _ q.stock
          rw [stock_stream hq]
          exact takeIn_takes { p with pool := r.takeFinished.2 } now r.takeFinished.1
      | layersShed failed shed =>
          obtain rfl := Except.ok.inj hq
          exact .nothing

/-- A tick takes in what is salvaged for it, and then plays time that is there, or none. -/
theorem consume_stock {t : Ticked} (ht : p.consume now = .ok t) :
    ∃ r, p.stock.Takes (p.credits p.salvaged) r ∧ r.Spends t.player.stock := by
  -- Unless the buffer runs low nothing is salvaged.
  have hplays : p.runsLow = false → p.stock.Spends t.player.stock →
      ∃ r, p.stock.Takes (p.credits p.salvaged) r ∧ r.Spends t.player.stock := by
    intro hruns hspends
    rw [salvaged, hruns, if_neg Bool.false_ne_true]
    exact ⟨p.stock, .nothing, hspends⟩
  cases consume_cases ht with
  | stopped idle => exact hplays (by simp [runsLow, idle]) .nothing
  | ended all empty => exact hplays (by simp [runsLow, all]) .nothing
  | covered playing there ticked =>
      exact hplays (by simp [runsLow, there]) (consumed_spends there ticked)
  | drained all =>
      refine hplays (by simp [runsLow, all]) ?_
      have hdrained : p.buffer.drain.2 =
          { p.buffer with filled := p.buffer.filled - p.buffer.filled } := by
        rw [Nat.sub_self]
        rfl
      show p.stock.Spends
        (({ p with buffer := p.buffer.drain.2 } : Player).played p.buffer.filled).2.stock
      rw [stock_played p hdrained]
      exact .time p.buffer.filled (Nat.le_refl _)
  | @underrun s r _ playing more short saved ticked =>
      have hruns : p.runsLow = true := by simp [runsLow, playing, more, short]
      have hsalvaged : p.salvaged = s.usable := by rw [salvaged, if_pos hruns, saved]
      refine ⟨(({ p with pool := r } : Player).takeSalvage now s).stock, ?_,
        consumeOrStall_spends ticked⟩
      rw [hsalvaged]
      exact takeSalvage_takes { p with pool := r } now s

/-- **What happens on a cue** credits at most one segment, to buffer and queue, and then plays time
that is there, or none. -/
theorem heed_stock {cue : Cue} {t : Ticked} (ht : p.heed cue = .ok t) :
    ∃ r, p.stock.Takes (p.credits (p.intake cue)) r ∧ r.Spends t.player.stock := by
  cases cue with
  | network now id w =>
      obtain ⟨⟨e, r⟩, hpoll, ht⟩ := Checked.bind_eq_ok_iff.mp ht
      rw [intake_network hpoll]
      exact ⟨t.player.stock, hear_takes ht, .nothing⟩
  | tick now =>
      rw [Player.heed] at ht
      -- An event takes the place of the tick, which spends nothing then.
      cases hannounce : p.pool.announce with
      | mk e r =>
          rw [hannounce] at ht
          cases e with
          | none =>
              rw [intake_tick_none hannounce]
              exact consume_stock ht
          | some e =>
              rw [intake_tick_some hannounce]
              exact ⟨t.player.stock, hear_takes ht, .nothing⟩
  | sent closed =>
      obtain rfl := Except.ok.inj ht
      exact ⟨p.stock, .nothing, .nothing⟩

/-! ### Lives -/

variable {capacity : Nat} {past before after : Past}

/-- **One deed** keeps a stock balanced. -/
theorem balanced_does (h : p.stock.Balanced capacity before) {deed : Deed}
    (hq : p.does before deed = .ok (after, q)) : q.stock.Balanced capacity after := by
  -- Only a cue moves time, and only the taking of a report resets a counter.
  cases deed with
  | play now =>
      obtain ⟨q', hplay, hq⟩ := Checked.bind_eq_ok_iff.mp hq
      obtain ⟨rfl, rfl⟩ := Prod.mk.inj (Except.ok.inj hq)
      rw [stock_play hplay]
      exact h
  | cue c =>
      obtain ⟨t, ht, hq⟩ := Checked.bind_eq_ok_iff.mp hq
      obtain ⟨rfl, rfl⟩ := Prod.mk.inj (Except.ok.inj hq)
      obtain ⟨r, htakes, hspends⟩ := heed_stock ht
      exact (h.takes htakes).spends hspends
  | stop now =>
      obtain ⟨rfl, rfl⟩ := Prod.mk.inj (Except.ok.inj hq)
      rw [stock_stop]
      exact h
  | takeReport =>
      obtain ⟨rfl, rfl⟩ := Prod.mk.inj (Except.ok.inj hq)
      exact { h with balance := h.balance }
  | takeNotices =>
      obtain ⟨rfl, rfl⟩ := Prod.mk.inj (Except.ok.inj hq)
      exact h
  | adopt policy =>
      obtain ⟨rfl, rfl⟩ := Prod.mk.inj (Except.ok.inj hq)
      exact h

/-- **A life** keeps a stock balanced. -/
theorem balanced_live (deeds : List Deed) (h : p.stock.Balanced capacity before)
    (hq : p.live before deeds = .ok (after, q)) : q.stock.Balanced capacity after := by
  -- Induction on the deeds, from any player with any past.
  induction deeds generalizing p before with
  | nil =>
      obtain ⟨rfl, rfl⟩ := Prod.mk.inj (Except.ok.inj hq)
      exact h
  | cons deed rest ih =>
      obtain ⟨⟨between, p'⟩, hdeed, hrest⟩ := Checked.bind_eq_ok_iff.mp hq
      exact ih (balanced_does h hdeed) hrest

/-- A new player has nothing in store. -/
theorem balanced_ofSettings {settings : PlayerSettings} {m : Manifest} {faces : Nat}
    (hnew : Player.ofSettings settings m faces = .ok (.ok p)) :
    p.stock.Balanced settings.maxBuffer {} := by
  obtain ⟨policy, pool, -, -, rfl⟩ := ofSettings_eq_ok hnew
  exact ⟨rfl, rfl, Nat.zero_le _, rfl⟩

/-- **Buffer and playout queue never drift apart.** Whatever happens in the life of a player, and
whatever decides for it, the buffer holds the time that is left of the segments in the playout
queue, which fits into it, and all that was ever consumed together with what is in the buffer is all
that was ever credited. So the
buffer takes the time of every segment that is credited, and time that the buffer can give never
goes beyond the end of the queue, whatever was taken in before. -/
theorem stock_balanced {settings : PlayerSettings} {m : Manifest} {faces : Nat}
    {deeds : List Deed} (hnew : Player.ofSettings settings m faces = .ok (.ok p))
    (hlive : p.live {} deeds = .ok (past, q)) :
    q.buffer.filled = (q.holdings.playout.map Unplayed.left).sum ∧
      q.buffer.filled ≤ settings.maxBuffer ∧
      past.played + q.report.played + q.buffer.filled = (past.credited.map Unplayed.left).sum ∧
      (∀ ds, ∀ u ∈ q.credits ds, ∃ buffer, q.buffer.add? u.left = some buffer) ∧
      ∀ now ds time, time ≤ (q.takeIn now ds).buffer.filled →
        (((q.takeIn now ds).holdings.advance time).2.playout.map Unplayed.left).sum + time =
          ((q.takeIn now ds).holdings.playout.map Unplayed.left).sum := by
  have hq := balanced_live deeds (balanced_ofSettings hnew) hlive
  refine ⟨hq.queue.symm, hq.bound, hq.balance, ?admitted, ?advanced⟩
  case admitted =>
    intro ds u hu
    exact ⟨_, PlayoutBuffer.add?_eq_some_iff.mpr ⟨(takeIn_takes q 0 ds).room hu, rfl⟩⟩
  case advanced =>
    intro now ds time htime
    have htaken := hq.takes (takeIn_takes q now ds)
    have hthere : time ≤ ((q.takeIn now ds).holdings.playout.map Unplayed.left).sum :=
      htaken.queue.symm ▸ htime
    rw [Holdings.playout_advance, Holdings.sum_playOut hthere]
    omega

/-- Both segments of the sample arrive and two seconds are played. Then playback is stopped, the
report is taken, and playback is started again. -/
def sampleDeeds : List Deed :=
  [.play 0, .cue (.sent fun _ => false),
    .cue (.network 10 0 (.reply ⟨⟨contentName "http://a/0", 0⟩, .data (Length.encode 0)⟩)),
    .cue (.sent fun _ => false),
    .cue (.network 20 0 (.reply ⟨⟨contentName "http://a/1", 0⟩, .data (Length.encode 0)⟩)),
    .cue (.tick 2000000000), .cue (.tick 3000000000), .stop 3000000000, .takeReport,
    .play 4000000000]

/-- After the sample deeds half a second is left, all of it in the second segment. -/
theorem stock_balanced_sample :
    ∃ p past q, Player.ofSettings sampleSettings sampleManifest 1 = .ok (.ok p) ∧
      p.live {} sampleDeeds = .ok (past, q) ∧
      past.credited = [⟨1, 1250000000⟩, ⟨0, 1250000000⟩] ∧ past.played = 2000000000 ∧
      q.holdings.playout = [⟨1, 500000000⟩] ∧ q.buffer.filled = 500000000 := by
  have hvalue : ((Player.ofSettings sampleSettings sampleManifest 1).toOption.bind fun r =>
      r.toOption.bind fun p => (p.live {} sampleDeeds).toOption.map fun r =>
        (r.1.credited, r.1.played, r.2.holdings.playout)) =
      some ([⟨1, 1250000000⟩, ⟨0, 1250000000⟩], 2000000000, [⟨1, 500000000⟩]) := by
    decide +kernel
  obtain ⟨r, hr, hvalue⟩ := Option.bind_eq_some_iff.mp hvalue
  obtain ⟨p, hp, hvalue⟩ := Option.bind_eq_some_iff.mp hvalue
  obtain ⟨⟨past, q⟩, hq, hvalues⟩ := Option.map_eq_some_iff.mp hvalue
  obtain ⟨hcredited, hvalues⟩ := Prod.mk.inj hvalues
  obtain ⟨hplayed, hqueue⟩ := Prod.mk.inj hvalues
  have hnew : Player.ofSettings sampleSettings sampleManifest 1 = .ok (.ok p) := by
    rw [Checked.eq_ok_of_toOption hr, Checked.eq_ok_of_toOption hp]
  have hlive := Checked.eq_ok_of_toOption hq
  obtain ⟨hfilled, -⟩ := stock_balanced hnew hlive
  rw [hqueue] at hfilled
  exact ⟨p, past, q, hnew, hlive, hcredited, hplayed, hqueue, hfilled⟩

end Player

end LayerCast
