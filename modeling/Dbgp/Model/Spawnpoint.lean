import Dbgp.Packet

/-!
# Spawnpoints

A `Spawnpoint` marks a place at which a newly started execution context should stop.
-/

namespace Dbgp

open Xml (Element)

/-- A spawnpoint of the engine, as an element `spawnpoint` describes it. -/
structure Spawnpoint where
  id : String
  file : String
  line : UInt32
  enabled : Bool
  deriving DecidableEq, Repr, Inhabited

namespace Spawnpoint

/-- Reads a spawnpoint. Without an `id`, or with a `lineno` that is no number, there is none. -/
def ofElement? (e : Element) : Option Spawnpoint := do
  let id ← e.attr? "id"
  let line ← (e.word32? "lineno").toOption
  some ⟨id, (e.attr? "filename").getD "", line.getD 0, stateEnabled (e.attr? "state")⟩

/-- The spawnpoints that a response lists, as far as `ofElement?` can read them. -/
def ofResponse (r : Response) : List Spawnpoint :=
  (r.root.childrenNamed "spawnpoint").filterMap ofElement?

/-- A spawnpoint as JSON, with every field of `Spawnpoint`. -/
def toJson (s : Spawnpoint) : Json :=
  .object
    [("id", .str s.id), ("filename", .str s.file), ("line_number", .nat s.line.toNat),
     ("enabled", .bool s.enabled)]

/-- The fields of a spawnpoint, in the order of `toJson`. -/
def fields : Json.Fields Spawnpoint :=
  Spawnpoint.mk
    <$> .required "id" Json.Reader.text
    <*> .required "filename" Json.Reader.text
    <*> .required "line_number" Json.Reader.word32
    <*> .required "enabled" Json.Reader.bool

/-- Reads a `Spawnpoint` from JSON. -/
def ofJson : Json.Reader Spawnpoint :=
  fields.record "Spawnpoint"

end Spawnpoint

end Dbgp
