import LayerCast.Proofs.Playback.Changes
import LayerCast.Proofs.Pool.Size
import LayerCast.Simulation.Playback

/-!
# `LayerCast.Proofs.Simulation.Replay`: runs are performances

What is known about players is known about performances (`Player.perform`), in which the network
may do anything. A run on the clock (`AttachedPlayer.run`) has faces, and the network behind them
decides what happens. `run_performs` says that every run is a performance: there are cues on which
the player alone does what it did in the run.

Nothing has to be known about the faces for this, but that every fetcher has one
(`AttachedPlayer.Paired`). For that the number of fetchers may never change.
-/

set_option autoImplicit false

namespace LayerCast

/-! ### What a player keeps -/

namespace Player

variable {p q : Player} {now : Nat}

/-- Carrying out what is told leaves the number of fetchers. -/
theorem size_onPoolEvent {e : PoolEvent} (h : p.onPoolEvent now e = .ok q) :
    q.pool.size = p.pool.size := by
  cases e with
  | batchComplete =>
      refine (changes_stream h).size.trans ?_
      obtain ⟨hpool, -⟩ := takeIn_eq { p with pool := p.pool.takeFinished.2 } now
        p.pool.takeFinished.1
      exact (congrArg Pool.size hpool).trans (Pool.size_takeFinished p.pool)
  | layersShed failed shed =>
      obtain rfl := Except.ok.inj h
      rfl

/-- A report lasts through the end of playback. -/
theorem report_stop (p : Player) (now : Nat) : (p.stop now).report = p.report := by
  unfold Player.stop
  split <;> rfl

end Player

/-! ### Sending -/

/-- A face that does not take an interest is closed for the fetcher. -/
theorem Attached.fetcher_send (now : Nat) (a : Attached) (i : Interest) :
    ∃ closed, (a.send now i).fetcher =
      { a.fetcher with faceClosed := a.fetcher.faceClosed || closed } := by
  unfold send
  cases htaken : (a.face.express now i).1 with
  | false => exact ⟨true, by simp [htaken]⟩
  | true => exact ⟨false, by simp [htaken]⟩

/-- What is sent leaves the outbox, and may show that the face is closed. -/
theorem Attached.fetcher_flush (now : Nat) (a : Attached) :
    ∃ closed, (a.flush now).fetcher = a.fetcher.sent closed := by
  have hall : ∀ (interests : List Interest) (b : Attached), ∃ closed,
      (interests.foldl (send now) b).fetcher =
        { b.fetcher with faceClosed := b.fetcher.faceClosed || closed } := by
    intro interests
    induction interests with
    | nil =>
        intro b
        exact ⟨false, by simp⟩
    | cons i rest ih =>
        intro b
        obtain ⟨closed, hsend⟩ := b.fetcher_send now i
        obtain ⟨closed', hrest⟩ := ih (b.send now i)
        refine ⟨closed || closed', ?_⟩
        rw [List.foldl_cons, hrest, hsend, Bool.or_assoc]
  obtain ⟨closed, hflush⟩ := hall a.fetcher.outbox
    { a with fetcher := { a.fetcher with outbox := [] } }
  exact ⟨closed, hflush⟩

/-- A pool that has as many faces as fetchers hands over the interests of all of them. -/
theorem AttachedPool.pool_flush (now : Nat) {a : AttachedPool}
    (h : a.faces.length = a.pool.size) :
    (a.flush now).faces.length = a.faces.length ∧
      ∃ closed, (a.flush now).pool = a.pool.afterSent closed := by
  -- Each member has flushed its own outbox, and tells whether its face has closed.
  choose closed hclosed using Attached.fetcher_flush now
  have hlength : a.members.length = a.pool.size := by
    rw [members, List.length_zipWith, h]
    exact Nat.min_self _
  constructor
  · have hfaces : ((a.members.map (Attached.flush now)).map Attached.face).length =
        a.faces.length := by
      rw [List.length_map, List.length_map, hlength, h]
    exact hfaces
  · -- Which faces are closed is read off from the members.
    refine ⟨fun id => (a.members[id]?.map closed).getD false, ?_⟩
    have hfetchers : (a.members.map (Attached.flush now)).map Attached.fetcher =
        a.pool.fetchers.mapIdx fun id f => f.sent ((a.members[id]?.map closed).getD false) := by
      have hsame : a.members.length = a.pool.fetchers.length := hlength
      refine List.ext_getElem (by simp [hsame]) fun id hid _ => ?_
      have hmember : id < a.members.length := by simpa using hid
      rw [List.getElem_map, List.getElem_map, List.getElem_mapIdx, hclosed,
        List.getElem?_eq_getElem hmember]
      simp [members]
    rw [flush, withMembers, hfetchers]
    rfl

/-! ### Steps of a pool -/

/-- What a step of a pool with its faces is for the pool alone: a turn, unless there is nothing to
do or a face has closed. -/
inductive AttachedPool.Acts (now : Nat) (a : AttachedPool) :
    Move AttachedPool (Except Error PoolEvent) → Prop
  | idle (silent : a.pool.events = []) : Acts now a .idle
  | failed {b : AttachedPool} (e : Error) (same : b.pool = a.pool) :
      Acts now a (.event (.error e) b)
  | moved {b : AttachedPool} (id : Nat) (w : Wake)
      (turn : a.pool.poll now id w = .ok (none, b.pool))
      (faces : b.faces.length = a.faces.length) : Acts now a (.advance b)
  | told {b : AttachedPool} {e : PoolEvent} (id : Nat) (w : Wake)
      (turn : a.pool.poll now id w = .ok (some e, b.pool))
      (faces : b.faces.length = a.faces.length) : Acts now a (.event (.ok e) b)

/-- Every step of a pool with its faces is one of these. -/
theorem AttachedPool.act_acts {a : AttachedPool} {now : Nat}
    {move : Move AttachedPool (Except Error PoolEvent)} (h : a.act now = .ok move) :
    AttachedPool.Acts now a move := by
  unfold AttachedPool.act at h
  cases hevents : a.pool.events with
  | cons e rest =>
      have htake : a.pool.takeEvent? = some (e, { a.pool with events := rest }) := by
        rw [Pool.takeEvent?, hevents]
      rw [htake] at h
      obtain rfl := Except.ok.inj h
      -- The pool tells this in a turn of any fetcher.
      refine .told 0 .faceEnd ?_ rfl
      rw [Pool.poll, htake]
  | nil =>
      rw [Pool.takeEvent?, hevents] at h
      simp only at h
      split at h
      · obtain rfl := Except.ok.inj h
        exact .idle hevents
      · obtain rfl := Except.ok.inj h
        exact .failed _ rfl
      · rename_i id wake face _
        obtain ⟨⟨e, pool⟩, hpoll, h⟩ := Checked.bind_eq_ok_iff.mp h
        cases e with
        | none =>
            obtain rfl := Except.ok.inj h
            exact .moved id wake hpoll List.length_set
        | some e =>
            obtain rfl := Except.ok.inj h
            exact .told id wake hpoll List.length_set

/-! ### Steps of a player -/

namespace AttachedPlayer

variable {a b c : AttachedPlayer} {now : Nat}

/-- Every fetcher has its face. -/
def Paired (a : AttachedPlayer) : Prop := a.faces.length = a.player.pool.size

/-- A new player has a fetcher for each of its faces. -/
theorem paired_ofSettings {settings : PlayerSettings} {m : Manifest} {p : Player}
    {faces : List Face} (h : Player.ofSettings settings m faces.length = .ok (.ok p)) :
    ({ player := p, faces } : AttachedPlayer).Paired := by
  obtain ⟨-, pool, -, hpool, rfl⟩ := Player.ofSettings_eq_ok h
  exact (Pool.size_ofSettings hpool).symm

/-- On some cues the player of `a` does what has made it the player of `b`. Where playback does not
go on, its report is all that counts. -/
def Performs (a b : AttachedPlayer) (goesOn : Bool) : Prop :=
  ∃ cues t, a.player.perform cues = .ok t ∧ t.goesOn = goesOn ∧
    t.player.report = b.player.report ∧ (goesOn = true → t.player = b.player)

/-- Nothing has to happen for a player to stay as it is. -/
theorem Performs.refl (h : a.player = b.player) : a.Performs b true :=
  ⟨[], _, rfl, rfl, congrArg Player.report h, fun _ => h⟩

/-- What is done one after the other is done. -/
theorem Performs.trans {goesOn : Bool} (h : a.Performs b true) (h' : b.Performs c goesOn) :
    a.Performs c goesOn := by
  obtain ⟨cues, t, ht, htrue, -, hplayer⟩ := h
  obtain ⟨later, u, hu, hgoesOn, hreport, hsame⟩ := h'
  rw [← hplayer rfl] at hu
  exact ⟨cues ++ later, _, Player.perform_append ht htrue hu, hgoesOn, hreport, hsame⟩

/-- What a player does on one cue. -/
theorem Performs.heed {cue : Cue} {t : Player.Ticked} (ht : a.player.heed cue = .ok t)
    (hreport : t.player.report = b.player.report)
    (hplayer : t.goesOn = true → t.player = b.player) : a.Performs b t.goesOn := by
  cases hgoesOn : t.goesOn with
  | false =>
      refine ⟨[cue], t, ?_, hgoesOn, hreport, fun htrue => by cases htrue⟩
      rw [Player.perform, ht]
      show (if t.goesOn then _ else _) = _
      rw [hgoesOn]
      rfl
  | true =>
      refine ⟨[cue], { t with numbers := t.numbers ++ [] }, ?_, hgoesOn, hreport,
        fun _ => hplayer hgoesOn⟩
      rw [Player.perform, ht]
      show (if t.goesOn then _ else _) = _
      rw [hgoesOn]
      rfl

/-- The next tick has nothing to do with the faces. -/
theorem Paired.withTick (h : a.Paired) (tick : Nat) : ({ a with nextTick := tick }).Paired := h

/-- Handing the interests over is a cue of its own. -/
theorem Paired.flush (h : a.Paired) (now : Nat) :
    (flush now a).Paired ∧ a.Performs (flush now a) true ∧
      (flush now a).player.report = a.player.report := by
  have hpaired : a.attachedPool.faces.length = a.attachedPool.pool.size := h
  obtain ⟨hfaces, closed, hpool⟩ := AttachedPool.pool_flush now hpaired
  have hplayer : (AttachedPlayer.flush now a).player =
      { a.player with pool := a.player.pool.afterSent closed } :=
    congrArg (fun pool => ({ a.player with pool } : Player)) hpool
  refine ⟨?_, ?_, ?_⟩
  · rw [Paired, hplayer, Pool.size_afterSent, ← h]
    exact hfaces
  · have hheed : a.player.heed (.sent closed) =
        .ok { player := { a.player with pool := a.player.pool.afterSent closed } } := rfl
    exact Performs.heed hheed (by rw [hplayer]) fun _ => hplayer.symm
  · rw [hplayer]

/-- What a step of a player with its faces is for the player alone. -/
def Explains (a : AttachedPlayer) : Move AttachedPlayer (Except Error Unit) → Prop
  | .idle => True
  | .advance b => b.Paired ∧ a.Performs b true
  | .event (.ok ()) b => a.Performs b false
  | .event (.error _) b => a.Performs b true

/-- A step that carries something out and then hands the interests over. -/
theorem explains_flush (h : b.Paired) (hstep : a.Performs b true) (now : Nat) :
    a.Explains (.advance (flush now b)) := by
  obtain ⟨hpaired, hflush, -⟩ := h.flush now
  exact ⟨hpaired, hstep.trans hflush⟩

/-- A tick of a pool that has nothing to tell is explained by the cue for a tick. -/
theorem tick_explains (h : a.Paired) (silent : a.player.pool.events = [])
    {move : Move AttachedPlayer (Except Error Unit)} (htick : a.tick now = .ok move) :
    a.Explains move := by
  obtain ⟨t, ht, htick⟩ := Checked.bind_eq_ok_iff.mp htick
  have hheed : a.player.heed (.tick now) = .ok t := by
    rw [Player.heed, Pool.announce_nil silent]
    exact ht
  have hpaired : ({ a with
      player := t.player
      nextTick := now + a.player.settings.tick } : AttachedPlayer).Paired :=
    h.trans (Player.changes_consume ht).size.symm
  obtain rfl := Except.ok.inj htick
  split
  · rename_i hgoesOn
    refine explains_flush hpaired ?_ now
    rw [← hgoesOn]
    exact Performs.heed hheed rfl fun _ => rfl
  · -- Interests are still handed over at the end, which leaves the report.
    rename_i hends
    obtain ⟨-, -, hreport⟩ := hpaired.flush now
    rw [Bool.not_eq_true] at hends
    show a.Performs _ false
    rw [← hends]
    refine Performs.heed hheed hreport.symm fun hgoesOn => ?_
    rw [hends] at hgoesOn
    cases hgoesOn

/-- Every step of a player is explained by cues. -/
theorem act_explains (h : a.Paired) {move : Move AttachedPlayer (Except Error Unit)}
    (hact : a.act now = .ok move) : a.Explains move := by
  obtain ⟨step, hstep, hact⟩ := Checked.bind_eq_ok_iff.mp hact
  -- A step of the pool is a cue for the player, and without one the tick is due.
  cases AttachedPool.act_acts hstep with
  | idle silent =>
      simp only at hact
      split at hact
      · exact tick_explains h silent hact
      · obtain rfl := Except.ok.inj hact
        trivial
  | failed e same =>
      obtain rfl := Except.ok.inj hact
      exact Performs.refl (congrArg (fun pool => ({ a.player with pool } : Player)) same).symm
  | moved id w turn faces =>
      rename_i b
      obtain rfl := Except.ok.inj hact
      have hheed : a.player.heed (.network now id w) = .ok { player := (a.withPool b).player } :=
        Checked.bind_eq_ok_iff.mpr ⟨(none, b.pool), turn, rfl⟩
      have hpaired : (a.withPool b).Paired := faces.trans (h.trans (Pool.size_poll turn).symm)
      exact explains_flush hpaired (Performs.heed hheed rfl fun _ => rfl) now
  | told id w turn faces =>
      rename_i b e
      obtain ⟨player, hplayer, hact⟩ := Checked.bind_eq_ok_iff.mp hact
      obtain rfl := Except.ok.inj hact
      have hheed : a.player.heed (.network now id w) = .ok { player } :=
        Checked.bind_eq_ok_iff.mpr ⟨(some e, b.pool), turn,
          Checked.bind_eq_ok_iff.mpr ⟨player, hplayer, rfl⟩⟩
      have hpaired : ({ a.withPool b with player } : AttachedPlayer).Paired :=
        faces.trans (h.trans ((Player.size_onPoolEvent hplayer).trans (Pool.size_poll turn)).symm)
      exact explains_flush hpaired (Performs.heed hheed rfl fun _ => rfl) now

/-! ### Runs -/

/-- To settle the faces leaves the player alone. -/
theorem player_settle (now : Nat) (a : AttachedPlayer) : (a.settle now).2.player = a.player := rfl

/-- The turn of the far end leaves every fetcher its face. -/
theorem Paired.settle (h : a.Paired) (now : Nat) : (a.settle now).2.Paired := by
  have hfaces : ((a.faces.map (·.settle now)).map (·.2)).length = a.faces.length := by
    rw [List.length_map, List.length_map]
  exact hfaces.trans h

/-- Until something ends it, a player does what it would do on some cues. An event without an error
is the end of playback, and nothing else is. -/
theorem drive_performs {deadline steps : Nat} {r : Run AttachedPlayer (Except Error Unit)}
    (h : a.Paired) (hdrive : client.drive (fun _ => true) deadline steps now a [] = .ok r) :
    ∃ goesOn, a.Performs r.state goesOn ∧
      (goesOn = false ↔ r.events.head?.map (·.2) = some (.ok ())) := by
  -- Along the steps that are left. The clock and the player change with each of them.
  induction steps generalizing a now with
  | zero =>
      obtain rfl := Except.ok.inj hdrive
      exact ⟨true, Performs.refl rfl, by simp⟩
  | succ steps ih =>
      obtain ⟨move, hact, hdrive⟩ := Checked.bind_eq_ok_iff.mp hdrive
      have hexplains := act_explains h hact
      cases move with
      | advance b =>
          obtain ⟨hpaired, hstep⟩ := hexplains
          obtain ⟨goesOn, hrest, hend⟩ := ih hpaired hdrive
          exact ⟨goesOn, hstep.trans hrest, hend⟩
      | event e b =>
          obtain rfl := Except.ok.inj hdrive
          cases e with
          | ok result => exact ⟨false, hexplains, by simp⟩
          | error e => exact ⟨true, hexplains, by simp⟩
      | idle =>
          simp only at hdrive
          split at hdrive
          · obtain rfl := Except.ok.inj hdrive
            exact ⟨true, Performs.refl rfl, by simp⟩
          · -- The far end has its turn, which leaves the player as it is.
            obtain ⟨later, hdrive⟩ : ∃ later,
                client.drive (fun _ => true) deadline steps later (a.settle now).2 [] = .ok r := by
              split at hdrive
              · rename_i b hsettle
                have hb : b = (a.settle now).2 := (congrArg Prod.snd hsettle).symm
                exact ⟨now, hb ▸ hdrive⟩
              · rename_i b hsettle
                have hb : b = (a.settle now).2 := (congrArg Prod.snd hsettle).symm
                exact ⟨_, hb ▸ hdrive⟩
            obtain ⟨goesOn, hrest, hend⟩ := ih (h.settle now) hdrive
            exact ⟨goesOn, (Performs.refl (player_settle now a).symm).trans hrest, hend⟩

/-- A run yields a report at the end of playback only, and else a player that was stopped. -/
theorem finish_spec {ended : Option (Except Error Unit)} {result : Except Error Report}
    (h : a.finish now ended = (result, b)) :
    match result with
    | .ok report => ended = some (.ok ()) ∧ report = a.player.report
    | .error _ => ended ≠ some (.ok ()) ∧ b.player = a.player.stop now := by
  unfold finish at h
  split at h
  · obtain ⟨rfl, -⟩ := Prod.mk.inj h
    exact ⟨rfl, a.player.report_stop now⟩
  · obtain ⟨rfl, rfl⟩ := Prod.mk.inj h
    exact ⟨by simp, rfl⟩
  · obtain ⟨rfl, rfl⟩ := Prod.mk.inj h
    exact ⟨by simp, rfl⟩

/-- **Every run is a performance.** A player that has a face for each of its fetchers is run for
some time. Then there are cues for the player alone on which it gives, after the same start, the
same report, or is what the run leaves behind without a report. -/
theorem run_performs {steps length : Nat} {o : Outcome} (h : a.Paired)
    (hrun : a.run steps now length = .ok o) :
    ∃ p cues t, a.player.play now = .ok p ∧ p.perform cues = .ok t ∧
      match o.result with
      | .ok report => t.goesOn = false ∧ t.player.report = report
      | .error _ => o.state.player = t.player.stop o.time := by
  unfold run at hrun
  obtain ⟨started, hstarted, hrun⟩ := Checked.bind_eq_ok_iff.mp hrun
  obtain ⟨p, hplay, hstarted⟩ := Checked.bind_eq_ok_iff.mp hstarted
  obtain rfl := Except.ok.inj hstarted
  have hpaired : ({ a with player := p } : AttachedPlayer).Paired :=
    h.trans (Player.changes_play hplay).size.symm
  obtain ⟨hflushed, hsent, -⟩ := hpaired.flush now
  generalize AttachedPlayer.flush now { a with player := p } = b at hrun hflushed hsent
  split at hrun
  · -- The run is cancelled right behind its start.
    obtain rfl := Except.ok.inj hrun
    obtain ⟨cues, t, ht, -, -, hplayer⟩ := hsent
    exact ⟨p, cues, t, hplay, ht, congrArg (Player.stop · now) (hplayer rfl).symm⟩
  · obtain ⟨r, hdrive, hrun⟩ := Checked.bind_eq_ok_iff.mp hrun
    -- The first tick is set, which is nothing to the player.
    generalize Instant.after now b.player.settings.firstTick = tick at hdrive
    have hticking : b.Performs { b with nextTick := tick } true := Performs.refl rfl
    obtain ⟨goesOn, hrest, hend⟩ := drive_performs (hflushed.withTick tick) hdrive
    obtain ⟨cues, t, ht, hgoesOn, hreport, hplayer⟩ := (hsent.trans hticking).trans hrest
    cases hfinish : r.state.finish r.time (r.events.head?.map (·.2)) with
    | mk result state =>
        rw [hfinish] at hrun
        obtain rfl := Except.ok.inj hrun
        refine ⟨p, cues, t, hplay, ht, ?_⟩
        have hspec := finish_spec hfinish
        cases result with
        | ok report =>
            obtain ⟨hended, rfl⟩ := hspec
            exact ⟨hgoesOn.trans (hend.mpr hended), hreport⟩
        | error e =>
            obtain ⟨hended, hstopped⟩ := hspec
            have hgoing : goesOn = true := by
              rw [← Bool.not_eq_false, hend]
              exact hended
            exact hstopped.trans (congrArg (Player.stop · r.time) (hplayer hgoing).symm)

end AttachedPlayer

end LayerCast
