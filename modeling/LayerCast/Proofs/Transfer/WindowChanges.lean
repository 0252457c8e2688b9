import LayerCast.Proofs.Transfer.Strides

/-!
# `LayerCast.Proofs.Transfer.WindowChanges`: how far changes of the window lie apart

A window is decreased after a setback and increased after data, and both only if enough time has
passed. The time that has to pass is the timeout of the moment, which itself moves: it doubles with
every setback and is set anew by every sample. The moments of the last decrease and of the last
increase stay with the fetcher from one transfer to the next.

Every call is watched for the changes that it makes (`changes`), and `perform_moves` says what each
of them does to the window. The results are in `window_changes_spaced`. Two decreases lie more than
one timeout apart, and so does an increase from all changes before it. And since the timeout never
falls while no data arrives (`Stride.timeout_le`), the setbacks that follow a decrease within one
timeout change nothing, however many they are.
-/

set_option autoImplicit false

namespace LayerCast

/-- Which way a window is changed. -/
inductive WindowMove where
  | decrease
  | increase
  deriving DecidableEq, Repr

/-- A change of the window. -/
structure WindowChange where
  move : WindowMove
  time : Nat
  /-- The timeout that a decrease finds, and that an increase finds after the sample is taken. -/
  timeout : Nat
  deriving DecidableEq, Repr

/-- The second change lies more than the timeout of the first one before it, if the later one is an
increase or the earlier one a decrease. -/
def WindowChange.Spaced (later earlier : WindowChange) : Prop :=
  later.move = .increase ∨ earlier.move = .decrease →
    earlier.time + later.timeout < later.time

/-- A wake that hands over data. -/
def Wake.BringsData : Wake → Prop
  | .reply ⟨_, .data _⟩ => True
  | _ => False

/-- Setbacks raise the timeout, up to the largest backoff factor. -/
theorem RoundTrip.timeout_le_backOff {r : RoundTrip} (h : r.multiplier ≤ maxMultiplier) :
    r.timeout ≤ r.backOff.timeout := by
  refine Nat.mul_le_mul_left _ ?_
  show r.multiplier ≤ min (r.multiplier * 2) maxMultiplier
  omega

namespace Fetcher

/-- Nothing is done up to a moment that brings data. -/
def Call.IsQuiet (limit : Nat) : Call → Prop
  | .wake now w => now ≤ limit ∧ ¬w.BringsData
  | _ => True

/-- The owner does not change the window, nor start a transfer, which may need a new one. -/
def Call.KeepsWindow : Call → Prop
  | .start _ _ | .releaseWindow | .installWindow _ _ => False
  | _ => True

/-- The changes that a call has made to the window. Each leaves its moment with the fetcher. -/
def changes (f : Fetcher) (call : Call) (g : Fetcher) : List WindowChange :=
  match call with
  | .wake now _ =>
    (if g.lastCongestion = f.lastCongestion then []
      else [⟨.decrease, now, f.roundTrip.timeout⟩]) ++
    if g.lastIncrease = f.lastIncrease then []
      else [⟨.increase, now, g.roundTrip.timeout⟩]
  | _ => []

/-- Notes the changes that a call has made, the latest ones first. -/
def noteChanges (log : List WindowChange) (f : Fetcher) (call : Call) (g : Fetcher) :
    List WindowChange :=
  changes f call g ++ log

/-- What a call does to the window, and the changes that it makes by that. -/
inductive Moves (f : Fetcher) (call : Call) (g : Fetcher) : List WindowChange → Prop
  /-- No change is made. -/
  | none (hcongestion : g.lastCongestion = f.lastCongestion)
      (hincrease : g.lastIncrease = f.lastIncrease)
      (hwindow : call.KeepsWindow → g.window = f.window) : Moves f call g []
  /-- A setback decreases the window, and the threshold becomes the number of requests that are
  still out. -/
  | decreased {now : Nat} {w : Wake} (hcall : call = .wake now w) (hdata : f.taken? w = Option.none)
      (hlate : ¬Recent f.roundTrip.timeout now f.lastCongestion)
      (hcongestion : g.lastCongestion = some now) (hincrease : g.lastIncrease = f.lastIncrease)
      (hwindow : g.window = f.window.map fun w => w.shrink.setThreshold g.load) :
      Moves f call g [⟨.decrease, now, f.roundTrip.timeout⟩]
  /-- Data increases the window. -/
  | increased {now : Nat} {w : Wake} (hcall : call = .wake now w)
      (hdata : (f.taken? w).isSome = true)
      (hincrease : ¬Recent g.roundTrip.timeout now f.lastIncrease)
      (hcongestion : ¬Recent g.roundTrip.timeout now f.lastCongestion)
      (hnow : g.lastIncrease = some now) (hsame : g.lastCongestion = f.lastCongestion)
      (hwindow : g.window = f.window.map Window.grow) :
      Moves f call g [⟨.increase, now, g.roundTrip.timeout⟩]

section
variable {s : FetchSettings} {f g h : Fetcher} {call : Call} {log : List WindowChange}
  {p p' : Pace} {name : String} {now load : Nat} {gain : Option Nat}

/-! ### What a call changes -/

/-- The present moment is another one than a moment that is not recent. -/
theorem ne_of_not_recent {timeout : Nat} {before after : Option Nat} (hafter : after = some now)
    (hlate : ¬Recent timeout now before) : after ≠ before := by
  rintro rfl
  exact hlate ⟨now, hafter, by omega⟩

/-- The changes of a wake are read off the two moments that a fetcher keeps. -/
theorem changes_wake (f : Fetcher) (now : Nat) (w : Wake) (g : Fetcher) :
    changes f (.wake now w) g =
      (if g.lastCongestion = f.lastCongestion then []
        else [⟨.decrease, now, f.roundTrip.timeout⟩]) ++
      if g.lastIncrease = f.lastIncrease then []
        else [⟨.increase, now, g.roundTrip.timeout⟩] := rfl

/-- Without a beat that changes the window there is no change to be noted. -/
theorem changes_of_same (hcongestion : g.lastCongestion = f.lastCongestion)
    (hincrease : g.lastIncrease = f.lastIncrease) (call : Call) : changes f call g = [] := by
  unfold changes
  split
  · rw [if_pos hcongestion, if_pos hincrease]
    rfl
  · rfl

/-- Where neither moment has changed, the window has not been changed either. -/
theorem moves_none (hcongestion : g.lastCongestion = f.lastCongestion)
    (hincrease : g.lastIncrease = f.lastIncrease)
    (hwindow : call.KeepsWindow → g.window = f.window) : Moves f call g (changes f call g) := by
  rw [changes_of_same hcongestion hincrease]
  exact .none hcongestion hincrease hwindow

/-- A beat of a wake makes at most one change. -/
theorem Beat.moves {w : Wake} (hgain : (f.taken? w).map Prod.fst = gain) (hp : g.pace = p)
    (hbeat : Beat f.pace name now g.load gain p) :
    Moves f (.wake now w) g (changes f (.wake now w) g) := by
  obtain ⟨hroundTrip, hwindow, hcongestion, hincrease, -⟩ := of_pace_eq hp
  -- A beat moves the window exactly where it sets one of the two moments.
  cases hbeat with
  | asks hasks =>
      cases hasks with
      | nothing => exact moves_none hcongestion hincrease fun _ => hwindow
      | request => exact moves_none hcongestion hincrease fun _ => hwindow
  | spared => exact moves_none hcongestion hincrease fun _ => hwindow
  | held => exact moves_none hcongestion hincrease fun _ => hwindow
  | shrunk hlate =>
      have hincrease : g.lastIncrease = f.lastIncrease := hincrease
      have hmoved : g.lastCongestion ≠ f.lastCongestion := ne_of_not_recent hcongestion hlate
      rw [changes_wake, if_neg hmoved, if_pos hincrease, List.append_nil]
      exact .decreased rfl (Option.map_eq_none_iff.mp hgain) hlate hcongestion hincrease hwindow
  | @grown chunk _ r _ hearlier hlate =>
      obtain rfl : g.roundTrip = r := hroundTrip
      have hcongestion : g.lastCongestion = f.lastCongestion := hcongestion
      have hmoved : g.lastIncrease ≠ f.lastIncrease := ne_of_not_recent hincrease hearlier
      have htaken : (f.taken? w).isSome = true := by
        rw [← Option.isSome_map, hgain]
        rfl
      rw [changes_wake, if_pos hcongestion, if_neg hmoved, List.nil_append]
      exact .increased rfl htaken hearlier hlate hincrease hcongestion hwindow

/-- **One call** makes at most one change, and only when it is due. -/
theorem perform_moves (horder : f.InOrder s) (hg : f.perform call = .ok g) :
    Moves f call g (changes f call g) := by
  have hstride := perform_stride horder hg
  generalize hp : g.pace = p at hstride
  obtain ⟨-, hwindow, hcongestion, hincrease, -⟩ := of_pace_eq hp
  cases hstride with
  | woken _ _ hbeat => exact hbeat.moves rfl hp
  | nothing => exact moves_none hcongestion hincrease fun _ => hwindow
  | reset => exact moves_none hcongestion hincrease fun _ => hwindow
  | sent => exact moves_none hcongestion hincrease fun _ => hwindow
  | released => exact moves_none hcongestion hincrease fun hkeeps => hkeeps.elim
  | installed => exact moves_none hcongestion hincrease fun hkeeps => hkeeps.elim
  | started _ hasks =>
      cases hasks with
      | nothing => exact moves_none hcongestion hincrease fun hkeeps => hkeeps.elim
      | request => exact moves_none hcongestion hincrease fun hkeeps => hkeeps.elim

/-! ### The changes of a life -/

/-- The changes that were made lie apart, and none is later than the moments that were left. -/
structure Stamped (log : List WindowChange) (f : Fetcher) : Prop where
  spaced : log.Pairwise WindowChange.Spaced
  decreases : ∀ c ∈ log, c.move = .decrease →
    ∃ moment, f.lastCongestion = some moment ∧ c.time ≤ moment
  increases : ∀ c ∈ log, c.move = .increase →
    ∃ moment, f.lastIncrease = some moment ∧ c.time ≤ moment

/-- A moment that is not recent lies further ago than the timeout, and so does all before it. -/
theorem add_lt_of_not_recent {timeout now time : Nat} {moment? : Option Nat}
    (hlate : ¬Recent timeout now moment?)
    (htime : ∃ moment, moment? = some moment ∧ time ≤ moment) : time + timeout < now := by
  obtain ⟨moment, hmoment, hle⟩ := htime
  have hfar : ¬now - moment ≤ timeout := fun hnear => hlate ⟨moment, hmoment, hnear⟩
  omega

/-- **Step lemma**: a change keeps its distance to all changes before it. -/
theorem Stamped.moves (hlog : Stamped log f) {made : List WindowChange}
    (hmoves : Moves f call g made) : Stamped (made ++ log) g := by
  -- A change is compared with all earlier ones through the last of each kind.
  cases hmoves with
  | none hcongestion hincrease =>
      exact ⟨hlog.spaced, hcongestion ▸ hlog.decreases, hincrease ▸ hlog.increases⟩
  | @decreased now _ _ _ hlate hcongestion hincrease =>
      refine ⟨List.pairwise_cons.mpr ⟨fun c hc hspaced => ?_, hlog.spaced⟩, fun c hc hmove => ?_,
        fun c hc hmove => ?_⟩
      · -- Only decreases count, and they are not later than the last one.
        have hmove : c.move = .decrease := hspaced.resolve_left (by simp)
        exact add_lt_of_not_recent hlate (hlog.decreases c hc hmove)
      · refine ⟨now, hcongestion, ?_⟩
        rcases List.mem_cons.mp hc with rfl | hold
        · exact Nat.le_refl now
        · have hlt := add_lt_of_not_recent hlate (hlog.decreases c hold hmove)
          omega
      · rcases List.mem_cons.mp hc with rfl | hold
        · cases hmove
        · exact hincrease ▸ hlog.increases c hold hmove
  | @increased now _ _ _ hincrease hcongestion hnow hsame =>
      refine ⟨List.pairwise_cons.mpr ⟨fun c hc _ => ?_, hlog.spaced⟩, fun c hc hmove => ?_,
        fun c hc hmove => ?_⟩
      · cases hmove : c.move with
        | decrease => exact add_lt_of_not_recent hcongestion (hlog.decreases c hc hmove)
        | increase => exact add_lt_of_not_recent hincrease (hlog.increases c hc hmove)
      · rcases List.mem_cons.mp hc with rfl | hold
        · cases hmove
        · exact hsame ▸ hlog.decreases c hold hmove
      · refine ⟨now, hnow, ?_⟩
        rcases List.mem_cons.mp hc with rfl | hold
        · exact Nat.le_refl now
        · have hlt := add_lt_of_not_recent hincrease (hlog.increases c hold hmove)
          omega

/-- **Run lemma**: the changes of a life keep their distances. -/
theorem watch_stamped {id : Nat} (hnew : ofSettings id s = .ok f) {calls : List Call}
    (hg : f.watch noteChanges [] calls = .ok (log, g)) : Stamped log g := by
  refine watch_preserves Stamped (fun _ => True) ?_ (fun _ _ => trivial) (inOrder_ofSettings hnew)
    ⟨.nil, fun _ hc => (nomatch hc), fun _ hc => (nomatch hc)⟩ hg
  intro log f call g horder _ _ hcall hlog
  exact hlog.moves (perform_moves horder hcall)

/-! ### The timeout while no data arrives -/

/-- While no data arrives the timeout does not fall. -/
theorem Beat.timeout_le (hbeat : Beat p name now load none p')
    (hbounded : p.roundTrip.multiplier ≤ RoundTrip.maxMultiplier) :
    p.roundTrip.timeout ≤ p'.roundTrip.timeout := by
  cases hbeat with
  | asks hasks => cases hasks <;> exact Nat.le_refl _
  | spared => exact RoundTrip.timeout_le_backOff hbounded
  | shrunk => exact RoundTrip.timeout_le_backOff hbounded

/-- A wake that brings no data takes none. -/
theorem taken?_of_quiet {w : Wake} (hquiet : ¬w.BringsData) : f.taken? w = none := by
  cases w with
  | reply r =>
      obtain ⟨n, body⟩ := r
      cases body with
      | data bytes => exact absurd trivial hquiet
      | nack reason => rfl
  | _ => rfl

/-- In a quiet burst the timeout does not become shorter: nothing is sampled, and every failure
doubles it. -/
theorem Stride.timeout_le {limit : Nat} (hstride : Stride f load call p)
    (hquiet : call.IsQuiet limit)
    (hbounded : f.roundTrip.multiplier ≤ RoundTrip.maxMultiplier) :
    f.roundTrip.timeout ≤ p.roundTrip.timeout := by
  cases hstride with
  | started _ hasks => cases hasks <;> exact Nat.le_refl _
  | woken _ _ hbeat =>
      rw [taken?_of_quiet hquiet.2] at hbeat
      exact hbeat.timeout_le hbounded
  | _ => exact Nat.le_refl _

/-- The moment of the last decrease covers all that happens up to a limit. -/
structure Covered (s : FetchSettings) (limit : Nat) (f : Fetcher) : Prop where
  history : HasHistory s.roundTrip f.roundTrip
  last : ∃ moment, f.lastCongestion = some moment ∧ limit ≤ moment + f.roundTrip.timeout

/-- In a quiet time no change of the window is due. -/
theorem Covered.moves {limit : Nat} (hcovered : Covered s limit f) (hquiet : call.IsQuiet limit)
    {made : List WindowChange} (hmoves : Moves f call g made) : made = [] := by
  obtain ⟨moment, hmoment, hlimit⟩ := hcovered.last
  cases hmoves with
  | none => rfl
  | decreased hcall _ hlate =>
      subst hcall
      have hnow := hquiet.1
      exact absurd ⟨moment, hmoment, by omega⟩ hlate
  | increased hcall hdata =>
      subst hcall
      rw [taken?_of_quiet hquiet.2] at hdata
      cases hdata

/-- **Step lemma**: a quiet call leaves the last decrease in force. -/
theorem Covered.perform {limit : Nat} (hcovered : Covered s limit f) (horder : f.InOrder s)
    (hquiet : call.IsQuiet limit) (hg : f.perform call = .ok g) :
    Covered s limit g ∧ changes f call g = [] ∧ (call.KeepsWindow → g.window = f.window) := by
  have hstride := perform_stride horder hg
  have hmoves := perform_moves horder hg
  have hnothing := hcovered.moves hquiet hmoves
  obtain ⟨moment, hmoment, hlimit⟩ := hcovered.last
  have hle : f.roundTrip.timeout ≤ g.roundTrip.timeout :=
    hstride.timeout_le hquiet hcovered.history.bounded.2
  rw [hnothing] at hmoves
  cases hmoves with
  | none hcongestion _ hwindow =>
      exact ⟨⟨hcovered.history.stride hstride, moment, hcongestion.trans hmoment, by omega⟩,
        hnothing, hwindow⟩

/-- **Run lemma**: quiet calls change nothing after a decrease that covers them. -/
theorem Covered.watch {limit : Nat} (hcovered : Covered s limit f) (horder : f.InOrder s)
    {burst : List Call} (hquiet : ∀ call ∈ burst, call.IsQuiet limit)
    (hg : f.watch noteChanges [] burst = .ok (log, g)) :
    log = [] ∧ ((∀ call ∈ burst, call.KeepsWindow) → g.window = f.window) := by
  have hrun := watch_preserves
    (fun log k => Covered s limit k ∧ log = [] ∧
      ((∀ call ∈ burst, call.KeepsWindow) → k.window = f.window))
    (fun call => call.IsQuiet limit ∧ ((∀ c ∈ burst, c.KeepsWindow) → call.KeepsWindow))
    ?_ (fun call hcall => ⟨hquiet call hcall, fun hkeeps => hkeeps call hcall⟩) horder
    ⟨hcovered, rfl, fun _ => rfl⟩ hg
  · exact hrun.2
  · rintro log k call k' hk _ ⟨hcall, hkeeps⟩ hperform ⟨hbefore, rfl, hwindow⟩
    obtain ⟨hafter, hnothing, hsame⟩ := hbefore.perform hk hcall hperform
    refine ⟨hafter, ?_, fun hall => (hsame (hkeeps hall)).trans (hwindow hall)⟩
    rw [noteChanges, hnothing]
    rfl

/-- **Changes of the window lie apart.** Take a new fetcher and any calls on it, over any number of
transfers, and note the changes of the window, the latest ones first. Of any two decreases the later
one comes more than the timeout that it found after the earlier one. An increase comes more than the
timeout that it found after its sample, after all decreases and increases before it.

Whatever the next call is, it makes no change but these (`Moves`). And after a decrease, calls that
bring no data up to one timeout later make no change at all, however many they are. So as long as
the owner does not change the window, it stays as the decrease has left it. -/
theorem window_changes_spaced {id : Nat} (hnew : ofSettings id s = .ok f) {calls : List Call}
    (hg : f.watch noteChanges [] calls = .ok (log, g)) :
    log.Pairwise WindowChange.Spaced ∧
      ∀ call h, g.perform call = .ok h → Moves g call h (changes g call h) ∧
        ∀ c ∈ changes g call h, c.move = .decrease → ∀ burst more k,
          (∀ later ∈ burst, later.IsQuiet (c.time + h.roundTrip.timeout)) →
          h.watch noteChanges [] burst = .ok (more, k) →
            more = [] ∧ ((∀ later ∈ burst, later.KeepsWindow) → k.window = h.window) := by
  have horder := watch_inOrder (inOrder_ofSettings hnew) hg
  refine ⟨(watch_stamped hnew hg).spaced, fun call h hh => ?_⟩
  have hmoves := perform_moves horder hh
  refine ⟨hmoves, fun c hc hmove burst more k hquiet hk => ?_⟩
  -- Of the changes that a call can make only a decrease is meant.
  have hlast : h.lastCongestion = some c.time := by
    generalize changes g call h = made at hmoves hc
    cases hmoves with
    | none => cases hc
    | decreased _ _ _ hcongestion =>
        obtain rfl := List.mem_singleton.mp hc
        exact hcongestion
    | increased =>
        obtain rfl := List.mem_singleton.mp hc
        cases hmove
  have hcovered : Covered s (c.time + h.roundTrip.timeout) h :=
    ⟨(watch_history hnew hg).stride (perform_stride horder hh), c.time, hlast, Nat.le_refl _⟩
  exact hcovered.watch (perform_inOrder horder hh) hquiet hk

/-- Four chunks are requested. Chunk 0 arrives after 100 ms, and the window is increased. The others
time out together, which decreases it once, and are requested again. -/
def spacedCalls : List Call :=
  [.start 0 sampleSegment, .wake 1 .tick, .wake 2 .tick, .wake 3 .tick,
    dataCall 100000000 0 ⟨#[0, 0, 0, 6]⟩, .wake 500000001 (.timer 1), .wake 500000002 (.timer 2),
    .wake 500000003 (.timer 3), .wake 500000004 .tick, .wake 500000005 .tick, .wake 500000006 .tick]

/-- Chunk 1 times out again, later than the doubled timeout. -/
def decreaseCall : Call := .wake 2900000005 (.timer 1)

/-- Chunk 2 times out again too, and the network refuses chunk 3. -/
def burstCalls : List Call :=
  [.wake 2900000006 (.timer 2),
    .wake 2900000007 (.reply ⟨⟨sampleSegment.name, 3⟩, .nack .congestion⟩)]

/-- The window is increased once and decreased twice, and the burst changes nothing. -/
theorem window_changes_spaced_sample :
    ∃ f log g h more k, ofSettings 0 lifeSettings = .ok f ∧
      f.watch noteChanges [] spacedCalls = .ok (log, g) ∧
      log = [⟨.decrease, 500000001, 300000000⟩, ⟨.increase, 100000000, 300000000⟩] ∧
      log.Pairwise WindowChange.Spaced ∧ g.perform decreaseCall = .ok h ∧
      changes g decreaseCall h = [⟨.decrease, 2900000005, 2400000000⟩] ∧
      h.watch noteChanges [] burstCalls = .ok (more, k) ∧ more = [] ∧ k.window = h.window := by
  have hvalue : ((ofSettings 0 lifeSettings).toOption.bind fun f =>
      (f.watch noteChanges [] spacedCalls).toOption.bind fun r =>
        (r.2.perform decreaseCall).toOption.bind fun h =>
          (h.watch noteChanges [] burstCalls).toOption.map fun _ =>
            (r.1, changes r.2 decreaseCall h, h.roundTrip.timeout)) =
      some ([⟨.decrease, 500000001, 300000000⟩, ⟨.increase, 100000000, 300000000⟩],
        [⟨.decrease, 2900000005, 2400000000⟩], 4800000000) := by decide +kernel
  obtain ⟨f, hnew, hvalue⟩ := Checked.exists_of_bind_toOption hvalue
  obtain ⟨⟨log, g⟩, hg, hvalue⟩ := Checked.exists_of_bind_toOption hvalue
  obtain ⟨h, hh, hvalue⟩ := Checked.exists_of_bind_toOption hvalue
  obtain ⟨⟨more, k⟩, hk, hvalues⟩ := Checked.exists_of_map_toOption hvalue
  obtain ⟨hlog, hrest⟩ := Prod.mk.inj hvalues
  obtain ⟨hchanges, htimeout⟩ := Prod.mk.inj hrest
  obtain ⟨hspaced, hnext⟩ := window_changes_spaced hnew hg
  obtain ⟨-, hburst⟩ := hnext decreaseCall h hh
  have hmem : (⟨.decrease, 2900000005, 2400000000⟩ : WindowChange) ∈ changes g decreaseCall h := by
    rw [hchanges]
    exact List.mem_singleton_self _
  have hquiet : ∀ later ∈ burstCalls, later.IsQuiet (2900000005 + h.roundTrip.timeout) := by
    rw [htimeout]
    simp [burstCalls, Call.IsQuiet, Wake.BringsData]
  obtain ⟨hmore, hwindow⟩ := hburst _ hmem rfl burstCalls more k hquiet hk
  refine ⟨f, log, g, h, more, k, hnew, hg, hlog, hspaced, hh, hchanges, hk, hmore, hwindow ?_⟩
  simp [burstCalls, Call.KeepsWindow]

end

end Fetcher

end LayerCast
