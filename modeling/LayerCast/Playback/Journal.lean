import LayerCast.Content.Segment

/-!
# `LayerCast.Playback.Journal`: what a player tells about itself

A player gives a `Notice` of everything that a viewer of its statistics may want to know. Nothing
of it flows back into its decisions. `Journal.lines` writes the notices as log lines, with times in
whole milliseconds since playback was started.
-/

set_option autoImplicit false

namespace LayerCast

/-- Something worth telling. -/
inductive Notice where
  | started
  | stopped
  /-- A batch was requested: the segment's number and the highest level in the batch. -/
  | requested (number level : Nat)
  | downloaded (d : Delivery)
  /-- There was nothing to play and nothing to salvage: the number that should have been playing,
  and the playback time that was left. -/
  | stalled (number buffered : Nat)

/-- How important a log line is. -/
inductive LogLevel where
  | debug
  | info
  | warn
  deriving DecidableEq, Repr

namespace LogLevel

/-- The name of a log level. -/
def name : LogLevel → String
  | .debug => "DEBUG"
  | .info => "INFO"
  | .warn => "WARN"

end LogLevel

/-- A log line with its numeric fields. -/
structure LogLine where
  level : LogLevel
  message : String
  fields : List (String × Nat)
  deriving DecidableEq, Repr

/-- What the log lines refer to. -/
structure Journal where
  /-- When playback was started last. -/
  started : Option Nat := none

namespace Journal

/-- Whole milliseconds since playback was started; 0 before that. -/
def offset (j : Journal) (time : Nat) : Nat :=
  match j.started with
  | some started => Span.millisWord (Instant.since time started)
  | none => 0

/-- The log line for a notice given at a time. -/
def write (j : Journal) (now : Nat) : Notice → LogLine × Journal
  | .started => (⟨.info, "playback started", []⟩, { started := some now })
  | .stopped => (⟨.info, "playback stopped", [("at_ms", j.offset now)]⟩, j)
  | .requested number level =>
    (⟨.debug, "segment requested", [("number", number), ("level", level)]⟩, j)
  | .downloaded d =>
    (⟨.debug, "segment downloaded", [
      ("number", d.segment.number),
      ("level", d.segment.level),
      ("bytes", d.bytes.size),
      ("start_ms", j.offset d.started),
      ("elapsed_ms", Span.millisWord d.elapsed),
      ("retransmissions", d.tally.retransmissions)]⟩, j)
  | .stalled number buffered =>
    (⟨.warn, "playback stalled",
      [("number", number), ("buffered_ms", Span.millisWord buffered)]⟩, j)

/-- The log lines for notices with their times. -/
def lines (j : Journal) : List (Nat × Notice) → List LogLine × Journal
  | [] => ([], j)
  | (now, notice) :: rest =>
    let (line, j) := j.write now notice
    let (others, j) := j.lines rest
    (line :: others, j)

end Journal

end LayerCast
