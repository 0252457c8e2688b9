import LayerCast.Json.Decimal
import LayerCast.Json.Reader

/-!
# `LayerCast.Json.Record`: reading typed values out of JSON trees

A record is an object with known members, or an array of its fields in their order, of which the
last ones may be left out. In an object a known member may stand once, an unknown one any number
of times and is not looked at; every key has to be text. What a missing field means is for the
record to say: `orElse` gives it a default, `required` refuses it.

A reader of a field says `none` when the value is not of its kind.
-/

set_option autoImplicit false

namespace LayerCast.Json

namespace Value

/-- The values of the members called `name`. -/
def membersNamed (members : List (Option String × Value)) (name : String) : List Value :=
  members.filterMap fun (key, v) => if key = some name then some v else none

/-- The fields of a record in the order of their names, each with its value if it is there. -/
def fields? (names : List String) : Value → Option (List (Option Value))
  | .object members =>
    if members.any (·.1.isNone) then none
    else
      names.mapM fun name =>
        match membersNamed members name with
        | [] => some none
        | [v] => some (some v)
        | _ => none
  | .array items =>
    if items.length ≤ names.length then
      some (items.map some ++ List.replicate (names.length - items.length) none)
    else none
  | _ => none

/-- An integer from zero up to, but without, `limit`. -/
def natBelow? (limit : Nat) : Value → Option Nat
  | .number n => n.toNat?.bind fun k => if k < limit then some k else none
  | _ => none

/-- A 32-bit word. -/
def word32? : Value → Option Nat := natBelow? LayerCast.word32

/-- A 64-bit word. -/
def word64? : Value → Option Nat := natBelow? LayerCast.word64

/-- A double, written with or without a point. -/
def float? : Value → Option Float
  | .number n => n.toFloat?
  | _ => none

/-- A text. -/
def text? : Value → Option String
  | .text s => s
  | _ => none

/-- A value that may be missing on purpose, written `null`. -/
def optional? {α : Type} (read : Value → Option α) : Value → Option (Option α)
  | .null => some none
  | v => (read v).map some

/-- The items of an array, each read alike. -/
def list? {α : Type} (read : Value → Option α) : Value → Option (List α)
  | .array items => items.mapM read
  | _ => none

/-- One of several names, written as a text or as an object whose one member has that name and the
value `null`. -/
def choice? {α : Type} (choices : List (String × α)) : Value → Option α
  | .text (some s) => choices.lookup s
  | .object [(some s, .null)] => choices.lookup s
  | _ => none

end Value

/-- A field that must be there. -/
def required {α : Type} (read : Value → Option α) (field : Option Value) : Option α :=
  field.bind read

/-- A field that stands for `default` when it is missing. -/
def orElse {α : Type} (default : α) (read : Value → Option α) : Option Value → Option α
  | none => some default
  | some v => read v

end LayerCast.Json
