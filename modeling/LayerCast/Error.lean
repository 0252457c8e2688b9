/-!
# `LayerCast.Error`: why a playback could not be set up or had to end

The causes that a manifest or a set of settings can give are types of their own, beside what they
describe. An `Error` carries only the sentence that names the cause, so that callers with causes
of their own can use it too.
-/

set_option autoImplicit false

namespace LayerCast

/-- An error that the caller of the library sees. -/
inductive Error where
  /-- The description of the content cannot be played. -/
  | manifest (reason : String)
  /-- The settings contradict themselves. -/
  | configuration (reason : String)
  /-- The network side of one fetcher is gone. -/
  | faceClosed (face : Nat)
  /-- A JSON text is malformed, or does not have the fields it should. -/
  | json
  /-- Playback was cancelled from outside. -/
  | cancelled
  deriving DecidableEq, Repr

namespace Error

/-- The sentence shown for an error. Malformed JSON is described by whoever reads the text. -/
def message? : Error → Option String
  | .manifest reason => some ("manifest error: " ++ reason)
  | .configuration reason => some ("configuration error: " ++ reason)
  | .faceClosed face => some ("transport face of downloader " ++ toString face ++ " closed")
  | .json => none
  | .cancelled => some "playback cancelled"

/-- Whether a new playback may simply be started after the error. The other errors will come again
with the same input, or the network side is gone. -/
def isRecoverable : Error → Bool
  | .cancelled => true
  | _ => false

end Error

end LayerCast
