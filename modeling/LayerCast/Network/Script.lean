import LayerCast.Network.Packet

/-!
# `LayerCast.Network.Script`: a network that answers by rules

A script describes a network that loses, refuses, delays and repeats as it is told to. The first
rule that matches an interest says what becomes of it. The attempt number of an interest tells how
often its chunk was asked for before, so a rule can lose a chunk once and let it through later.

The bytes of a content are a fixed pattern of chunk number and position (`pattern`).
-/

set_option autoImplicit false

namespace LayerCast

/-- The first `length` bytes that a chunk carries. -/
def pattern (chunk length : Nat) : ByteArray :=
  (List.range length).foldl (fun bytes j => bytes.push ((chunk * 31 + j) % 251).toUInt8)
    ByteArray.empty

/-- What becomes of an interest. -/
inductive RuleAction where
  /-- There is no answer. -/
  | silence
  /-- The face is closed. -/
  | close
  | refuse (reason : NackReason)
  | bytes (b : ByteArray)
  /-- The content itself. With a length, chunk 0 tells that length, and every data chunk is so
  long. -/
  | content (length : Option Nat)

/-- A rule: when it applies, and what it does. A condition that is not given holds. -/
structure Rule where
  segment : Option String := none
  chunk : Option Nat := none
  /-- The first chunk to which the rule applies. -/
  fromChunk : Option Nat := none
  attempt : Option Nat := none
  /-- The last attempt to which the rule applies. -/
  lastAttempt : Option Nat := none
  /-- Applies to the last of every so many chunks. -/
  every : Option Nat := none
  action : RuleAction := .content none
  /-- The name of the reply, where it is not that of the interest. -/
  replySegment : Option String := none
  replyChunk : Option Nat := none
  /-- The reply arrives once after each of these, in milliseconds. -/
  delays : Option (List Nat) := none

namespace Rule

/-- Whether a condition holds, if it is given. -/
def holds {α : Type} (condition : Option α) (test : α → Bool) : Bool :=
  match condition with
  | some a => test a
  | none => true

/-- Whether a rule applies to an attempt at a chunk. -/
def applies (r : Rule) (name : ChunkName) (attempt : Nat) : Bool :=
  holds r.segment (· == name.segment) && holds r.chunk (· == name.chunk) &&
    holds r.fromChunk (· ≤ name.chunk) && holds r.attempt (· == attempt) &&
    holds r.lastAttempt (attempt ≤ ·) && holds r.every fun n => name.chunk % n + 1 == n

end Rule

/-- A network that answers by rules. -/
structure Script where
  /-- Size of the contents that have no size of their own, in bytes. -/
  size : Option Nat := none
  /-- Sizes of contents, by name. -/
  sizes : List (String × Nat) := []
  /-- Bytes in every data chunk but the last. -/
  payload : Nat := 4096
  /-- Delay of a reply, in milliseconds. -/
  latency : Nat := 20
  rules : List Rule := []

/-- What becomes of an interest. -/
inductive ScriptedAnswer where
  | close
  /-- Each reply with its delay in milliseconds. -/
  | replies (rs : List (Nat × Reply))

namespace Script

/-- The content of a chunk, if there is one. -/
def content (s : Script) (name : ChunkName) (length : Option Nat) : Option ReplyBody := do
  let size ← (s.sizes.lookup name.segment).or s.size
  if name.chunk = 0 then return .data (Length.encode (length.getD size))
  else
    match length with
    | some length => return .data (pattern name.chunk length)
    | none =>
      let offset := (name.chunk - 1) * s.payload
      if offset < size then
        return .data (pattern name.chunk (min s.payload (size - offset)))
      else none

/-- The body of a reply by a rule; none is silence. -/
def body (s : Script) (rule : Rule) (name : ChunkName) : Option ReplyBody :=
  match rule.action with
  | .silence | .close => none
  | .refuse reason => some (.nack reason)
  | .bytes b => some (.data b)
  | .content length => s.content name length

/-- What becomes of an attempt at a chunk. -/
def answer (s : Script) (name : ChunkName) (attempt : Nat) : ScriptedAnswer :=
  let rule := (s.rules.find? (·.applies name attempt)).getD {}
  match rule.action with
  | .close => .close
  | _ =>
    match s.body rule name with
    | none => .replies []
    | some body =>
      let segment := rule.replySegment.getD name.segment
      let chunk := rule.replyChunk.getD name.chunk
      .replies ((rule.delays.getD [s.latency]).map fun delay => (delay, ⟨⟨segment, chunk⟩, body⟩))

end Script

end LayerCast
