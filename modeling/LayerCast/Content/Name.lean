import LayerCast.Arith.Checked

/-!
# `LayerCast.Content.Name`: names of segments and of their chunks

Content is addressed by hierarchical names. A segment's name comes from its URI
(`contentName`), and a chunk's name is the segment's name followed by `/chunk_` and the chunk's
number. `ChunkName.parse?` splits such a text at the last separator, so the segment's name may
hold the separator itself.
-/

set_option autoImplicit false

namespace LayerCast

/-- The content name of a URI: a leading `http://` becomes the root, any other URI is a name
already. -/
def contentName (uri : String) : String :=
  match uri.toList with
  | 'h' :: 't' :: 't' :: 'p' :: ':' :: '/' :: '/' :: rest => String.ofList ('/' :: rest)
  | _ => uri

/-- The name of one chunk of a segment. -/
structure ChunkName where
  segment : String
  chunk : Nat
  deriving DecidableEq, Hashable, Repr

namespace ChunkName

/-- What stands between the segment's name and the chunk's number. -/
def separator : List Char := ['/', 'c', 'h', 'u', 'n', 'k', '_']

/-- The decimal digits of a number. -/
def digits (n : Nat) : List Char := Nat.toDigits 10 n

/-- The written form of a name. -/
def text (name : ChunkName) : String :=
  String.ofList (name.segment.toList ++ separator ++ digits name.chunk)

/-- Splits a text at the last place where the separator stands. -/
def splitLast : List Char → Option (List Char × List Char)
  | [] => none
  | c :: rest =>
    match splitLast rest with
    | some (before, behind) => some (c :: before, behind)
    | none =>
      if separator.isPrefixOf (c :: rest) then some ([], (c :: rest).drop separator.length)
      else none

/-- Whether a character is a decimal digit. -/
def isDigit (c : Char) : Bool := '0' ≤ c && c ≤ '9'

/-- A 32-bit number: decimal digits, at least one, with an optional plus sign before them. -/
def parseNumber? (cs : List Char) : Option Nat :=
  let ds :=
    match cs with
    | '+' :: rest => rest
    | _ => cs
  if ds.isEmpty || !ds.all isDigit then none
  else
    let n := ds.foldl (fun acc d => acc * 10 + (d.toNat - 48)) 0
    if n < word32 then some n else none

/-- Reads a name back from its written form. -/
def parse? (s : String) : Option ChunkName := do
  let (segment, number) ← splitLast s.toList
  let chunk ← parseNumber? number
  return ⟨String.ofList segment, chunk⟩

end ChunkName

end LayerCast
