import LayerCast.Proofs.Playback.Pending
import LayerCast.Proofs.Playback.Stock
import LayerCast.Proofs.Playback.Terms

/-!
# `LayerCast.Proofs.Playback.Reserve`: the room that a request keeps free

A player requests a batch only if there is room in its buffer for a segment of the lowest level, and
nothing but that batch takes room away until it is taken in. `Player.Supplied` says so of a player
with a built-in policy, and what the layers in its pool can be. Every change keeps it
(`Change.supplied`).

So whatever is taken in finds that room. It may be of another level, whose segments may be longer.
`room_reserved` has the cases in which they are not, so that the segment is credited with its time.
In any other case it can be lost (`room_exceeded`): it is on record as downloaded, and is never
played.
-/

set_option autoImplicit false

namespace LayerCast

/-! ### What a built-in policy asks for -/

namespace Adaptation

variable {a a' : Adaptation} {m : Manifest} {b : PlayoutBuffer} {h : Holdings}
  {batch : List Segment}

/-- A built-in policy asks for segments of the content. -/
theorem ofContent_of_next (hbuiltIn : a.nature.builtIn = true)
    (hnext : a.next m b h = .ok (batch, a')) :
    ∀ s ∈ batch, m.segment? s.level s.number = some s := by
  obtain ⟨p, rfl⟩ := builtIn_nature hbuiltIn
  obtain ⟨p', -, hanswer⟩ := next_builtIn hnext
  obtain ⟨number, hbatch⟩ := Policy.segment?_of_next hanswer
  intro s hs
  obtain ⟨-, hnumber, -⟩ := Manifest.segment?_spec (hbatch s hs)
  rw [hnumber]
  exact hbatch s hs

/-- A policy that always picks the lowest level asks for nothing else. -/
theorem level_of_next (hlowest : a.nature.rule? = some .lowest)
    (hnext : a.next m b h = .ok (batch, a')) : ∀ s ∈ batch, s.level = 0 := by
  rcases a with p | f
  · obtain ⟨p', -, hanswer⟩ := next_builtIn hnext
    cases Policy.next_cases hanswer with
    | layered => cases hlowest
    | @counted s segment there =>
        have hrule : s.rule.unmeasured = .lowest := Option.some.inj hlowest
        have hlevel : s.rule.level m b = 0 := by
          -- The rules without what they have measured are told apart by their constructors.
          cases hs : s.rule with
          | lowest => rfl
          | measured | filled | best =>
              rw [hs] at hrule
              cases hrule
        rw [hlevel] at there
        exact List.forall_mem_singleton.mpr (Manifest.segment?_spec there).1
    | ended => exact fun s hs => absurd hs List.not_mem_nil
  · cases hlowest

end Adaptation

namespace Player

variable {p q : Player} {now : Nat}

/-! ### Room while a batch is out -/

/-- A player with a built-in policy, and what it has out. -/
structure Supplied (p : Player) : Prop where
  builtIn : p.policy.nature.builtIn = true
  ofContent : ∀ s ∈ p.pool.contents, p.manifest.segment? s.level s.number = some s
  lowest : p.policy.nature.rule? = some .lowest → ∀ s ∈ p.pool.contents, s.level = 0
  /-- While a batch is out there is room for a segment of the lowest level. -/
  reserved : p.pending ≠ none → p.buffer.hasRoom p.nextDuration = true

/-- Players on the same terms need the same room. -/
theorem nextDuration_of_terms (h : q.terms = p.terms) : q.nextDuration = p.nextDuration := by
  have hmanifest : q.manifest = p.manifest := congrArg Terms.manifest h
  rw [nextDuration, nextDuration, hmanifest]

/-- Where no layers have come into the pool, and no time into the buffer while a batch is out,
nothing has to be checked. -/
theorem Supplied.less (h : p.Supplied) (hterms : q.terms = p.terms)
    (hcontents : ∀ s ∈ q.pool.contents, s ∈ p.pool.contents)
    (hfilled : q.pending ≠ none → p.pending ≠ none ∧ q.buffer.filled ≤ p.buffer.filled) :
    q.Supplied := by
  have hnature : q.policy.nature = p.policy.nature := congrArg Terms.nature hterms
  have hmanifest : q.manifest = p.manifest := congrArg Terms.manifest hterms
  have hcapacity : q.buffer.capacity = p.buffer.capacity := congrArg Terms.capacity hterms
  refine ⟨hnature ▸ h.builtIn, fun s hs => ?_, fun hlowest s hs => ?_, fun hpending => ?_⟩
  · rw [hmanifest]
    exact h.ofContent s (hcontents s hs)
  · exact h.lowest (hnature ▸ hlowest) s (hcontents s hs)
  · obtain ⟨hout, hless⟩ := hfilled hpending
    have hroom : p.buffer.filled + p.nextDuration ≤ p.buffer.capacity :=
      of_decide_eq_true (h.reserved hout)
    refine decide_eq_true ?_
    rw [nextDuration_of_terms hterms, hcapacity]
    omega

/-- A batch that is requested comes with its room. -/
theorem Supplied.request (h : p.Supplied) (hsettled : p.pool.Settled) {policy : Adaptation}
    {first : Segment} {rest : List Segment}
    (asked : p.policy.next p.manifest p.buffer p.holdings = .ok (first :: rest, policy))
    (room : p.buffer.hasRoom p.nextDuration = true) :
    (({ p with policy } : Player).request now first (first :: rest)).Supplied := by
  have hnature : policy.nature = p.policy.nature := Adaptation.nature_next asked
  have hcontents : ∀ s ∈ (p.pool.enqueue now (first :: rest)).contents,
      s ∈ first :: rest ∨ s ∈ p.pool.contents := fun s hs =>
    List.mem_append.mp ((Pool.enqueue_spec hsettled now (first :: rest)).2.mem_iff.mp hs)
  refine ⟨hnature ▸ h.builtIn, fun s hs => ?_, fun hlowest s hs => ?_, fun _ => room⟩
  · rcases hcontents s hs with hnew | hold
    · exact Adaptation.ofContent_of_next h.builtIn asked s hnew
    · exact h.ofContent s hold
  · have hlowest : p.policy.nature.rule? = some .lowest := hnature ▸ hlowest
    rcases hcontents s hs with hnew | hold
    · exact Adaptation.level_of_next hlowest asked s hnew
    · exact h.lowest hlowest s hold

/-- **A change** keeps the room of the batch that is out. -/
theorem Change.supplied (hchange : p.Change q) (hsettled : p.pool.Settled) (h : p.Supplied) :
    q.Supplied := by
  have hterms := hchange.terms
  cases hchange with
  | noted | started =>
      exact h.less hterms (fun s hs => hs) fun hpending => ⟨hpending, Nat.le_refl _⟩
  | played time there =>
      exact h.less hterms (fun s hs => hs) fun hpending => ⟨hpending, Nat.sub_le ..⟩
  | stopped =>
      refine h.less hterms (fun s hs => ?_) fun hpending => absurd rfl hpending
      rw [(Pool.stop_spec p.pool).2] at hs
      cases hs
  | streamed now result =>
      cases result with
      | waits => exact h
      | nothing =>
          exact h.less hterms (fun s hs => hs) fun hpending => ⟨hpending, Nat.le_refl _⟩
      | requested policy first rest free more asked room => exact h.request hsettled asked room
  | sent closed =>
      refine h.less hterms (fun s hs => ?_) fun hpending => ⟨hpending, Nat.le_refl _⟩
      rwa [Pool.contents_afterSent] at hs
  | turned settled size turn | shed settled size turn =>
      exact h.less hterms
        (fun s hs => turn.contents_perm.mem_iff.mpr (List.mem_append_left _ hs))
        fun hpending => ⟨hpending, Nat.le_refl _⟩
  | finished now settled size turn =>
      refine h.less hterms (fun s hs => ?_) fun hpending => absurd rfl hpending
      rw [(takeIn_eq ..).1] at hs
      exact turn.contents_perm.mem_iff.mpr (List.mem_append_left _
        ((Pool.takeFinished_spec settled).2.mem_iff.mpr (List.mem_append_left _ hs)))
  | @salvaged r s now saved =>
      have hperm := (Pool.salvage_spec hsettled saved).2
      obtain ⟨hpool, hpending, -⟩ := takeSalvage_eq { p with pool := r } now s
      refine h.less hterms (fun x hx => ?_) fun hout => ?_
      · rw [hpool] at hx
        exact hperm.mem_iff.mpr (List.mem_append_left _ (List.mem_append_left _ hx))
      · rw [hpending] at hout
        -- The batch is still out, so that nothing was taken in.
        have hnothing : s.isEmpty = true := by
          by_contra hsome
          exact hout (if_neg hsome)
        rw [if_pos hnothing] at hout
        rw [takeSalvage, if_pos hnothing]
        exact ⟨hout, Nat.le_refl _⟩

/-- Whatever happens, a batch that is out has its room. -/
theorem Changes.supplied (hchanges : p.Changes q) (hsettled : p.pool.Settled) (h : p.Supplied) :
    q.Supplied := by
  induction hchanges with
  | refl => exact h
  | tail hbefore hchange ih => exact hchange.supplied (Changes.settled hbefore hsettled) ih

/-- A new player has nothing out. -/
theorem supplied_ofSettings {settings : PlayerSettings} {m : Manifest} {faces : Nat}
    (hnew : Player.ofSettings settings m faces = .ok (.ok p)) : p.Supplied := by
  obtain ⟨policy, pool, -, hpool, rfl⟩ := ofSettings_eq_ok hnew
  obtain ⟨-, hempty, -⟩ := Pool.ofSettings_spec hpool
  have hnone : ∀ s ∈ pool.contents, False := fun s hs => by
    rw [hempty] at hs
    cases hs
  exact ⟨by cases policy <;> rfl, fun s hs => (hnone s hs).elim,
    fun _ s hs => (hnone s hs).elim, fun hpending => absurd rfl hpending⟩

/-! ### What is taken in -/

/-- A segment of the lowest level has the length for which room is kept. -/
theorem duration_of_lowest {s : Segment} (hsegment : p.manifest.segment? s.level s.number = some s)
    (hlevel : s.level = 0) : s.duration = p.nextDuration := by
  obtain ⟨-, -, -, r, hr, hduration⟩ := Manifest.segment?_spec hsegment
  rw [hlevel] at hr
  rw [nextDuration, Manifest.segmentDuration?, hr]
  exact hduration

/-- Of deliveries in the order of their levels, among which there is a base layer, the first is
one. -/
theorem level_of_sorted {first : Delivery} {rest : List Delivery}
    (hsorted : (first :: rest).Pairwise fun d e => d.segment.level ≤ e.segment.level)
    (hbase : (first :: rest).any (·.segment.level == 0) = true) : first.segment.level = 0 := by
  obtain ⟨d, hd, hlevel⟩ := List.any_eq_true.mp hbase
  have hzero : d.segment.level = 0 := beq_iff_eq.mp hlevel
  rcases List.mem_cons.mp hd with rfl | hd
  · exact hzero
  · have hle := List.rel_of_pairwise_cons hsorted hd
    omega

/-- If the policy is layered or always picks the lowest level, the first of what is taken in has the
length for which room is kept, as long as it can be played. -/
theorem Supplied.duration_eq (h : q.Supplied) (hsettled : q.pool.Settled) {cue : Cue}
    {first : Delivery} {rest : List Delivery} (hintake : q.intake cue = first :: rest)
    (hplayable : (!q.policy.isLayered || (first :: rest).any (·.segment.level == 0)) = true)
    (hpolicy : q.policy.isLayered = true ∨ q.policy.nature.rule? = some .lowest) :
    first.segment.duration = q.nextDuration := by
  have hout := mem_intake hsettled cue first (hintake ▸ List.mem_cons_self)
  refine duration_of_lowest (h.ofContent _ hout) ?_
  cases hpolicy with
  | inl hlayered =>
      -- Such a policy can play the batch only with its base layer, which comes first.
      rw [hlayered] at hplayable
      have hsorted := sorted_intake hsettled cue
      rw [hintake] at hsorted
      exact level_of_sorted hsorted hplayable
  | inr hrule => exact h.lowest hrule _ hout

/-- A segment that can be played and for which there is room is credited with its time on the cue
that it is taken in, unless it was played or queued before. -/
theorem credited_of_room {cue : Cue} {first : Delivery} {rest : List Delivery} {t : Ticked}
    (hintake : p.intake cue = first :: rest)
    (hplayable : (!p.policy.isLayered || (first :: rest).any (·.segment.level == 0)) = true)
    (hroom : p.buffer.hasRoom first.segment.duration = true) (ht : p.heed cue = .ok t) :
    p.holdings.isPlayed first.segment.number = true ∨
      (∃ u ∈ p.holdings.playout, u.number = first.segment.number) ∨
      t.player.report.played + t.player.buffer.filled =
        p.report.played + p.buffer.filled + first.segment.duration := by
  cases hfresh : p.holdings.isPlayed first.segment.number ||
      p.holdings.playout.any (·.number == first.segment.number) with
  | true =>
      rcases Bool.or_eq_true_iff.mp hfresh with hplayed | hqueued
      · exact .inl hplayed
      · obtain ⟨u, hu, hnumber⟩ := List.any_eq_true.mp hqueued
        exact .inr (.inl ⟨u, hu, beq_iff_eq.mp hnumber⟩)
  | false =>
      have hcredits : p.credits (first :: rest) =
          [⟨first.segment.number, first.segment.duration⟩] := by
        simp only [credits, hplayable, hroom, isSome_schedule?, hfresh, Bool.not_false,
          Bool.and_self, if_true]
      obtain ⟨r, htakes, hspends⟩ := heed_stock ht
      rw [hintake, hcredits] at htakes
      refine .inr (.inr ?_)
      -- What is taken in makes the sum larger, and what is played does not change it.
      have htaken : r.played + r.buffer.filled =
          p.report.played + p.buffer.filled + first.segment.duration := by
        cases htakes with
        | segment u room => exact (Nat.add_assoc ..).symm
      show t.player.stock.played + t.player.stock.buffer.filled = _
      generalize t.player.stock = left at hspends ⊢
      cases hspends with
      | nothing => exact htaken
      | time time there =>
          show r.played + time + (r.buffer.filled - time) = _
          omega

/-! ### The result -/

/-- **The room that was reserved is there.** Take a player with a built-in policy, anywhere in its
life. Whatever is taken in, there is room in the buffer for a segment of the lowest level. So if it
can be played, and if the policy is layered or always picks the lowest level, or the segment is not
longer than those of the lowest level, the buffer has room for it, and the segment is credited with
its time, unless it was played or queued before. -/
theorem room_reserved {settings : PlayerSettings} {m : Manifest} {faces : Nat}
    {deeds : List Deed} {past : Past} {cue : Cue} {first : Delivery} {rest : List Delivery}
    (hnew : Player.ofSettings settings m faces = .ok (.ok p))
    (hkeeps : ∀ policy, Deed.adopt policy ∉ deeds) (hlive : p.live {} deeds = .ok (past, q))
    (hintake : q.intake cue = first :: rest) :
    q.buffer.hasRoom q.nextDuration = true ∧
      ((!q.policy.isLayered || (first :: rest).any (·.segment.level == 0)) = true →
        settings.policy.kind = .layered ∨ settings.policy.kind = .alwaysLowest ∨
          first.segment.duration ≤ q.nextDuration →
        q.buffer.hasRoom first.segment.duration = true ∧
          ∀ t, q.heed cue = .ok t →
            q.holdings.isPlayed first.segment.number = true ∨
              (∃ u ∈ q.holdings.playout, u.number = first.segment.number) ∨
              t.player.report.played + t.player.buffer.filled =
                q.report.played + q.buffer.filled + first.segment.duration) := by
  have hone := oneBatch_ofSettings hnew
  have hchanges := changes_live deeds hone.settled hkeeps hlive
  have hq := hchanges.oneBatch hone
  have hsupplied := hchanges.supplied hone.settled (supplied_ofSettings hnew)
  -- What is taken in is of the batch that is out, for which the room is kept.
  have hnoted := number_of_intake hq cue first (hintake ▸ List.mem_cons_self)
  have hreserved := hsupplied.reserved (hnoted ▸ Option.some_ne_none _)
  refine ⟨hreserved, fun hplayable hlength => ?_⟩
  have hnature : q.policy.nature = p.policy.nature := congrArg Terms.nature hchanges.terms
  obtain ⟨policy, pool, hpolicy, -, rfl⟩ := ofSettings_eq_ok hnew
  obtain ⟨hlayered, -, hrule⟩ := Policy.nature_build hpolicy
  have hshort : first.segment.duration ≤ q.nextDuration := by
    rcases hlength with hkind | hkind | hle
    case inr.inr => exact hle
    case inr.inl =>
      exact (hsupplied.duration_eq hq.settled hintake hplayable
        (.inr (hnature ▸ hrule hkind))).le
    case inl =>
      have hislayered : q.policy.isLayered = true := by
        rw [← Adaptation.layered_nature, hnature]
        exact hlayered.mpr hkind
      exact (hsupplied.duration_eq hq.settled hintake hplayable (.inl hislayered)).le
  have hroom : q.buffer.hasRoom first.segment.duration = true := by
    have hle : q.buffer.filled + q.nextDuration ≤ q.buffer.capacity := of_decide_eq_true hreserved
    refine decide_eq_true ?_
    omega
  exact ⟨hroom, fun t ht => credited_of_room hintake hplayable hroom ht⟩

/-- Playback is started, and the first interest goes out. -/
def openingDeeds : List Deed := [.play 0, .cue (.sent fun _ => false)]

/-- A reply that brings an empty segment as a whole. -/
def replyCue (now : Nat) (uri : String) : Cue :=
  .network now 0 (.reply ⟨⟨contentName uri, 0⟩, .data (Length.encode 0)⟩)

/-- The first segment of the sample arrives, there is room for it, and it is credited. -/
theorem room_reserved_sample :
    ∃ p past q first t, Player.ofSettings sampleSettings sampleManifest 1 = .ok (.ok p) ∧
      (∀ policy, Deed.adopt policy ∉ openingDeeds) ∧ p.live {} openingDeeds = .ok (past, q) ∧
      q.intake (replyCue 10 "http://a/0") = [first] ∧ first.segment.number = 0 ∧
      q.heed (replyCue 10 "http://a/0") = .ok t ∧
      q.buffer.hasRoom q.nextDuration = true ∧
      q.buffer.hasRoom first.segment.duration = true ∧
      t.player.report.played + t.player.buffer.filled = 1250000000 := by
  have hvalue : ((Player.ofSettings sampleSettings sampleManifest 1).toOption.bind fun r =>
      r.toOption.bind fun p => (p.live {} openingDeeds).toOption.bind fun r =>
        (r.2.heed (replyCue 10 "http://a/0")).toOption.map fun _ =>
          (!r.2.policy.isLayered, r.2.holdings, r.2.report.played + r.2.buffer.filled,
            (r.2.intake (replyCue 10 "http://a/0")).map fun d =>
              (d.segment.number, d.segment.duration))) =
      some (true, {}, 0, [(0, 1250000000)]) := by
    decide +kernel
  obtain ⟨made, hnew, hvalue⟩ := Checked.exists_of_bind_toOption hvalue
  obtain ⟨p, rfl, hmade⟩ := Checked.exists_of_bind_toOption hvalue
  obtain ⟨⟨past, q⟩, hlive, hvalue⟩ := Checked.exists_of_bind_toOption hmade
  obtain ⟨t, ht, hvalues⟩ := Checked.exists_of_map_toOption hvalue
  simp only [Prod.mk.injEq] at hvalues
  obtain ⟨hflat, hholdings, hstock, hintake⟩ := hvalues
  obtain ⟨first, hintake, hsegment⟩ := List.map_eq_singleton_iff.mp hintake
  obtain ⟨hnumber, hduration⟩ := Prod.mk.inj hsegment
  have hkeeps : ∀ policy, Deed.adopt policy ∉ openingDeeds := by simp [openingDeeds]
  have hplayable : (!q.policy.isLayered || [first].any (·.segment.level == 0)) = true := by
    rw [hflat, Bool.true_or]
  obtain ⟨hreserved, hwhole⟩ := room_reserved hnew hkeeps hlive hintake
  obtain ⟨hroom, hcredited⟩ := hwhole hplayable (.inr (.inl rfl))
  refine ⟨p, past, q, first, t, hnew, hkeeps, hlive, hintake, hnumber, ht, hreserved, hroom, ?_⟩
  -- Nothing was played or queued before.
  rcases hcredited t ht with hplayed | ⟨u, hu, -⟩ | hsum
  · rw [hholdings] at hplayed
    cases hplayed
  · rw [hholdings] at hu
    cases hu
  · rw [hsum, hstock, hduration]

/-- Segments of two seconds on the lower level and of six seconds on the higher one. -/
def unevenManifest : Manifest :=
  { baseUrl := "http://a"
    periods := [⟨[
      { id := "lo", bandwidth := 1, segmentMillis := 2000, media := #["l0", "l1"] },
      { id := "hi", bandwidth := 2, segmentMillis := 6000, media := #["h0", "h1"] }]⟩] }

/-- A buffer for one of the long segments, and a policy that asks for them. -/
def bestSettings : PlayerSettings :=
  { poolSize := 1, maxBufferMillis := 7000, policy := { kind := .alwaysBest } }

/-- The first long segment arrives and a second of it is played. Then there is room for a short
segment, and the next long one is requested. -/
def exceedingDeeds : List Deed :=
  openingDeeds ++ [.cue (replyCue 10 "http://a/h0"), .cue (.tick 2000000000),
    .cue (.sent fun _ => false)]

/-- A segment that is longer than those of the lowest level can find no room. It is on record as
downloaded then, but it is not queued, and playback goes on and is complete without it. -/
theorem room_exceeded :
    ∃ m p past q first t u, unevenManifest.normalize = .ok m ∧
      Player.ofSettings bestSettings m 1 = .ok (.ok p) ∧
      (∀ policy, Deed.adopt policy ∉ exceedingDeeds) ∧
      p.live {} exceedingDeeds = .ok (past, q) ∧
      q.intake (replyCue 2000000010 "http://a/h1") = [first] ∧ q.policy.isLayered = false ∧
      q.buffer.hasRoom q.nextDuration = true ∧
      q.buffer.hasRoom first.segment.duration = false ∧
      q.heed (replyCue 2000000010 "http://a/h1") = .ok t ∧
      t.player.report.records.map (·.segment.number) = [0, 1] ∧
      t.player.holdings.playout = [⟨0, 5000000000⟩] ∧
      t.player.perform ((List.range 6).map fun n => .tick ((n + 3) * 1000000000)) = .ok u ∧
      u.player.report.completed = true ∧ u.numbers = [0] := by
  have hvalue : (unevenManifest.normalize.toOption.bind fun m =>
      (Player.ofSettings bestSettings m 1).toOption.bind fun r => r.toOption.bind fun p =>
        (p.live {} exceedingDeeds).toOption.bind fun r =>
          (r.2.heed (replyCue 2000000010 "http://a/h1")).toOption.bind fun t =>
            (t.player.perform
              ((List.range 6).map fun n => .tick ((n + 3) * 1000000000))).toOption.map fun u =>
              ([r.2.policy.isLayered, r.2.buffer.hasRoom r.2.nextDuration,
                  r.2.buffer.hasRoom 6000000000, u.player.report.completed],
                (r.2.intake (replyCue 2000000010 "http://a/h1")).map (·.segment.duration),
                t.player.report.records.map (·.segment.number), t.player.holdings.playout,
                u.numbers)) =
      some ([false, true, false, true], [6000000000], [0, 1], [⟨0, 5000000000⟩], [0]) := by
    decide +kernel
  obtain ⟨m, hm, hvalue⟩ := Checked.exists_of_bind_toOption hvalue
  obtain ⟨made, hnew, hvalue⟩ := Checked.exists_of_bind_toOption hvalue
  obtain ⟨p, rfl, hmade⟩ := Checked.exists_of_bind_toOption hvalue
  obtain ⟨⟨past, q⟩, hlive, hvalue⟩ := Checked.exists_of_bind_toOption hmade
  obtain ⟨t, ht, hvalue⟩ := Checked.exists_of_bind_toOption hvalue
  obtain ⟨u, hu, hvalues⟩ := Checked.exists_of_map_toOption hvalue
  simp only [Prod.mk.injEq, List.cons.injEq] at hvalues
  obtain ⟨⟨hflat, hroom, hshort, hcompleted, -⟩, hintake, hrecords, hplayout, hnumbers⟩ := hvalues
  obtain ⟨first, hintake, hduration⟩ := List.map_eq_singleton_iff.mp hintake
  refine ⟨m, p, past, q, first, t, u, hm, hnew, by simp [exceedingDeeds, openingDeeds], hlive,
    hintake, hflat, hroom, ?_, ht, hrecords, hplayout, hu, hcompleted, hnumbers⟩
  rw [hduration]
  exact hshort

end Player

end LayerCast
