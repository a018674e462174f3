import Dbgp.Session.Turn
import Dbgp.Wire.Request

/-!
# The outlet

The `Outlet` is where requests are written. One request is written at a time. The other side may take
octets piece by piece, and may fail.
-/

namespace Dbgp

/-- What goes wrong at the other side, and which of writing, flushing and shutting down it goes wrong
in. -/
inductive OutletFault where
  | onWrite
  | onFlush
  | onShutdown
  deriving DecidableEq, Repr, Inhabited

/-- The writing side of a connection, with all that was `written` and the `turn` of the tasks that
write. -/
structure Outlet where
  /-- Whether there is still something to write to. -/
  live : Bool := true
  /-- Whether the other side has been told that nothing more comes. -/
  shut : Bool := false
  /-- Everything that has been written. -/
  written : List UInt8 := []
  fault : Option OutletFault := none
  /-- How many octets the other side takes now; without it, any number. -/
  room : Option Nat := none
  turn : Turn := {}
  deriving DecidableEq, Repr, Inhabited

namespace Outlet

/-- The failure that `write` reports when the other side has a fault. -/
def gone : Error :=
  .transport (.described "engine went away")

/-- What came of `write`. -/
inductive Written where
  /-- Some octets are still to be written. -/
  | part (left : List UInt8)
  | all
  | failed (e : Error)
  deriving Repr

/-- Writes as much as there is `room` for, and flushes after the last octet. The result is `none` if
the other side takes nothing now. -/
def write (bytes : List UInt8) (o : Outlet) : Option (Written × Outlet) :=
  if o.fault = some .onWrite then some (.failed gone, o)
  else
    match o.room with
    | some 0 => none
    | room =>
      let count := (room.getD bytes.length).min bytes.length
      let o' := { o with written := o.written ++ bytes.take count, room := room.map (· - count) }
      if count < bytes.length then some (.part (bytes.drop count), o')
      else if o.fault = some .onFlush then some (.failed gone, o')
      else some (.all, o')

/-- Shuts the outlet down, unless it is no longer `live`. -/
def close (o : Outlet) : Outlet :=
  if o.live then { o with live := false, shut := true } else o

end Outlet

end Dbgp
