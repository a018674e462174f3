import Dbgp.Wire.Frame
import Dbgp.Wire.Request

/-!
# Reading packets and requests as they arrive

Octets arrive in pieces and at different times. `Inbound` is what has arrived and not been read;
`Fill` is the reading of a fixed number of octets from it, `PacketRead` the reading of one packet and
`RequestRead` that of one request. They are polled: at any time a poll takes what is there and either
finishes or waits.

A `Fill` may have a limit for every single wait. The first wait that reaches it is tried once more,
the second ends the reading with what is there. Progress restarts the clock, but does not give the
second try back.
-/

namespace Dbgp

/-- How a stream goes on after the octets that are `pending`. -/
inductive Tail where
  | live
  | ended
  | failed (text : String)
  deriving DecidableEq, Repr, Inhabited

/-- A stream as seen by its reader: the `pending` octets, then the `tail`. -/
structure Inbound where
  pending : List UInt8 := []
  tail : Tail := .live
  deriving DecidableEq, Repr, Inhabited

namespace Inbound

/-- Octets arrive and become `pending`. After the end nothing does. -/
def feed (i : Inbound) (bytes : List UInt8) : Inbound :=
  if i.tail = .live then { i with pending := i.pending ++ bytes } else i

/-- The stream ends, if it is still `live`. -/
def close (i : Inbound) : Inbound :=
  if i.tail = .live then { i with tail := .ended } else i

/-- The stream fails, if it is still `live`; `text` says how. -/
def fail (i : Inbound) (text : String) : Inbound :=
  if i.tail = .live then { i with tail := .failed text } else i

end Inbound

/-! ## A fixed number of octets -/

/-- The reading of `want` octets, of which `got` is there. -/
structure Fill where
  want : Nat
  /-- The longest wait for the next octets. -/
  limit : Option Nat
  got : List UInt8 := []
  /-- Whether a wait has already reached the limit. -/
  retried : Bool := false
  /-- When the present wait began. -/
  since : Nat
  deriving DecidableEq, Repr, Inhabited

/-- What an action came to: it is `ongoing` in some state, or `finished`. -/
inductive Progress (ρ α : Type) where
  | ongoing (state : ρ)
  | finished (result : Except Error α)
  deriving Repr

namespace Fill

/-- When the present wait reaches its `limit`, if it has one. -/
def deadline (f : Fill) : Option Nat :=
  f.limit.map (f.since + ·)

/-- What has been read, as text, by `Text.Utf8.lossy`. -/
def text (f : Fill) : String :=
  Text.Utf8.lossy f.got

/-- The reading after octets have come, which restarts the clock `since`; no octets are no
progress. -/
def absorb (now : Nat) (f : Fill) (bytes : List UInt8) : Fill :=
  if bytes.isEmpty then f else { f with got := f.got ++ bytes, since := now }

/-- What a reading does when nothing more is there: it waits, unless the `limit` is reached for the
second time. -/
def pause (now : Nat) (f : Fill) : Progress Fill (Option String) :=
  match f.limit with
  | none => .ongoing f
  | some limit =>
    if now < f.since + limit then .ongoing f
    else if f.retried ∨ limit = 0 then .finished (.ok (some f.text))
    else .ongoing { f with retried := true, since := now }

/-- Takes what is there. Without the octets that were wanted, the end of the stream gives `none`, a
failure its text, and a live stream goes on by `pause`. -/
def poll (now : Nat) (f : Fill) (i : Inbound) : Progress Fill (Option String) × Inbound :=
  let missing := f.want - f.got.length
  let f' := f.absorb now (i.pending.take missing)
  let i' := { i with pending := i.pending.drop missing }
  let outcome :=
    if f.want ≤ f'.got.length then .finished (.ok (some f'.text))
    else
      match i.tail with
      | .ended => .finished (.ok none)
      | .failed text => .finished (.error (.transport (.described text)))
      | .live => f'.pause now
  (outcome, i')

end Fill

/-! ## A packet -/

/-- The reading of one packet: its `header`, for which there is no limit, and its `payload`. -/
inductive PacketRead where
  | header (fill : Fill)
  | payload (fill : Fill)
  deriving DecidableEq, Repr, Inhabited

/-- How packets are read: the longest payload, and the `timeout` for one wait inside of it. -/
structure ReadLimits where
  maxSize : Nat
  timeout : Option Nat
  deriving DecidableEq, Repr, Inhabited

namespace PacketRead

/-- The reading of a packet that begins now, with its `header`. -/
def start (now : Nat) : PacketRead :=
  .header { want := Frame.fieldWidth, limit := none, since := now }

/-- When the present wait reaches its limit, by `Fill.deadline`. -/
def deadline : PacketRead → Option Nat
  | .header f | .payload f => f.deadline

/-- Goes on with the payload, by `Fill.poll`. -/
def pollPayload (now : Nat) (f : Fill) (i : Inbound) : Progress PacketRead (Option String) × Inbound :=
  match f.poll now i with
  | (.ongoing f', i') => (.ongoing (.payload f'), i')
  | (.finished r, i') => (.finished r, i')

/-- Takes what is there. The result `none` means that there is no more to read; a length over
`maxSize` is refused before any octet of the payload is read. -/
def poll (limits : ReadLimits) (now : Nat) (r : PacketRead) (i : Inbound) :
    Progress PacketRead (Option String) × Inbound :=
  match r with
  | .payload f => pollPayload now f i
  | .header f =>
    match f.poll now i with
    | (.ongoing f', i') => (.ongoing (.header f'), i')
    | (.finished (.error e), i') => (.finished (.error e), i')
    | (.finished (.ok none), i') => (.finished (.ok none), i')
    | (.finished (.ok (some field)), i') =>
      match Frame.length? field with
      | none => (.finished (.ok none), i')
      | some n =>
        if limits.maxSize < n then
          (.finished (.error (.protocol (.packetTooLarge n limits.maxSize))), i')
        else pollPayload now { want := n, limit := limits.timeout, since := now } i'

end PacketRead

/-! ## A request -/

/-- The reading of one request: what has been `got` of its frame. -/
structure RequestRead where
  got : List UInt8 := []
  deriving DecidableEq, Repr, Inhabited

namespace RequestRead

/-- What a whole frame is read as, by `Request.decode`. -/
def result (frame : List UInt8) : Except Error (Option Request) :=
  ((Request.decode frame).map some).mapError .protocol

/-- Takes what is there, up to the NUL that ends a frame. Without it, the end of the stream gives
`none`. There is no limit for the wait. -/
def poll (_now : Nat) (r : RequestRead) (i : Inbound) :
    Progress RequestRead (Option Request) × Inbound :=
  match Request.takeFrame? i.pending with
  | some (front, rest) => (.finished (result (r.got ++ front)), { i with pending := rest })
  | none =>
    let outcome :=
      match i.tail with
      | .ended => .finished (.ok none)
      | .failed text => .finished (.error (.transport (.described text)))
      | .live => .ongoing { r with got := r.got ++ i.pending }
    (outcome, { i with pending := [] })

end RequestRead

end Dbgp
