import LayerCast.Settings.Basic

/-!
# `LayerCast.Settings.Builder`: settings put together step by step

Each `with…` function changes one part of the settings and keeps the rest. Durations are given in
nanoseconds and kept as whole milliseconds in a 64-bit word. What was put together is checked by
`PlayerSettings.validate`.
-/

set_option autoImplicit false

namespace LayerCast.PlayerSettings

/-- Sets the capacity of the playback buffer. -/
def withMaxBuffer (s : PlayerSettings) (nanos : Nat) : PlayerSettings :=
  { s with maxBufferMillis := Span.millisWord nanos }

/-- Sets the playback time that is consumed at a time. -/
def withTick (s : PlayerSettings) (nanos : Nat) : PlayerSettings :=
  { s with tickMillis := Span.millisWord nanos }

/-- Sets the time between the start and the first tick. -/
def withFirstTick (s : PlayerSettings) (nanos : Nat) : PlayerSettings :=
  { s with firstTickMillis := Span.millisWord nanos }

/-- Sets the number of fetchers. -/
def withPoolSize (s : PlayerSettings) (n : Nat) : PlayerSettings :=
  { s with poolSize := n }

/-- Chooses the policy and keeps its other settings. -/
def withPolicyKind (s : PlayerSettings) (kind : PolicyKind) : PlayerSettings :=
  { s with policy := { s.policy with kind } }

/-- Replaces the settings of the policy. -/
def withPolicy (s : PlayerSettings) (policy : PolicySettings) : PlayerSettings :=
  { s with policy }

/-- Chooses the rule of the congestion window. -/
def withWindowRule (s : PlayerSettings) (rule : WindowRule) : PlayerSettings :=
  { s with fetch := { s.fetch with window := { s.fetch.window with rule } } }

/-- Sets the rate of the link. -/
def withLinkRate (s : PlayerSettings) (linkRate : Nat) : PlayerSettings :=
  { s with fetch := { s.fetch with window := { s.fetch.window with linkRate } } }

/-- Replaces the settings of the fetchers. -/
def withFetch (s : PlayerSettings) (fetch : FetchSettings) : PlayerSettings :=
  { s with fetch }

end LayerCast.PlayerSettings
