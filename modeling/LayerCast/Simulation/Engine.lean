import LayerCast.Arith.Checked
import LayerCast.Clock.Span

/-!
# `LayerCast.Simulation.Engine`: a clock that stands still while anything can be done

A `Client` is whatever acts on the clock: it says what it does at a moment, and when it has
something to do next. `Client.drive` lets it act until a deadline. At every moment the client acts
until it is idle. If the deadline has come, this is the end. Else the far end of its faces has its
turn, which may give the client more to do at the same moment, and only then the clock jumps to the
next moment at which something is due.

So what is due exactly at the deadline is still done by the client, but the far end has no turn at
that moment. The number of steps is bounded, since a client may be busy at one moment for ever.
-/

set_option autoImplicit false

namespace LayerCast

/-- What a client does when it may act. -/
inductive Move (σ ε : Type) where
  | idle
  | advance (state : σ)
  /-- Something happened that the owner of the client has to know. -/
  | event (e : ε) (state : σ)

/-- A move to a state that was changed. -/
def Move.map {σ ε : Type} (f : σ → σ) : Move σ ε → Move σ ε
  | .idle => .idle
  | .advance state => .advance (f state)
  | .event e state => .event e (f state)

/-- A client with states `σ` and events `ε`. -/
structure Client (σ ε : Type) where
  /-- The next thing that is done at a moment. -/
  act : Nat → σ → Checked (Move σ ε)
  /-- The turn of the far end, and whether it has left something to do. -/
  settle : Nat → σ → Bool × σ
  /-- The next moment, after the present one, at which something is due. -/
  nextDue? : Nat → σ → Option Nat

/-- Why a run has ended. -/
inductive Ending where
  | deadline
  /-- An event after which the owner does not go on. -/
  | event
  /-- The bound on the number of steps was met. -/
  | exhausted
  deriving DecidableEq, Repr

/-- What a run has come to. -/
structure Run (σ ε : Type) where
  time : Nat
  state : σ
  /-- The events with their times, the latest first. -/
  events : List (Nat × ε)
  ending : Ending

namespace Client

variable {σ ε : Type}

/-- Lets a client act until a deadline or an event that `stops`, in at most `steps` steps. -/
def drive (client : Client σ ε) (stops : ε → Bool) (deadline : Nat) :
    (steps : Nat) → (now : Nat) → σ → List (Nat × ε) → Checked (Run σ ε)
  | 0, now, state, events => .ok ⟨now, state, events, .exhausted⟩
  | steps + 1, now, state, events => do
    match ← client.act now state with
    | .advance state => client.drive stops deadline steps now state events
    | .event e state =>
      let events := (now, e) :: events
      if stops e then return ⟨now, state, events, .event⟩
      else client.drive stops deadline steps now state events
    | .idle =>
      if deadline ≤ now then return ⟨now, state, events, .deadline⟩
      else
        match client.settle now state with
        | (true, state) => client.drive stops deadline steps now state events
        | (false, state) =>
          let next := min deadline ((client.nextDue? now state).getD deadline)
          client.drive stops deadline steps next state events

end Client

/-- The earlier of two moments, where there are any. -/
def earlier? : Option Nat → Option Nat → Option Nat
  | some a, some b => some (min a b)
  | some a, none => some a
  | none, b => b

/-- A moment that lies after `now`. -/
def after? (now : Nat) (time : Option Nat) : Option Nat := time.filter (now < ·)

end LayerCast
