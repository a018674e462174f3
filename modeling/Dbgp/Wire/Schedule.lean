import Dbgp.Wire.Inbound

/-!
# Reading from a schedule of arrivals

A `Schedule` fixes beforehand what arrives on a stream and when. Reading from it moves its clock from
one arrival or limit to the next and so ends, or finds that nothing will ever happen again.
-/

namespace Dbgp

/-- What can happen on a stream, as `Inbound.receive` takes it. -/
inductive Arrival where
  | bytes (data : List UInt8)
  | failure (text : String)
  | ending
  deriving DecidableEq, Repr, Inhabited

/-- How many octets arrive, which are none but for `bytes`. -/
def Arrival.size : Arrival → Nat
  | .bytes data => data.length
  | .failure _ | .ending => 0

/-- The stream after an arrival: `feed`, `fail` or `close`. -/
def Inbound.receive (i : Inbound) : Arrival → Inbound
  | .bytes data => i.feed data
  | .failure text => i.fail text
  | .ending => i.close

/-- A stream, the time, and what is `coming` with the times at which it comes. -/
structure Schedule where
  now : Nat := 0
  inbound : Inbound := {}
  coming : List (Nat × Arrival)
  deriving DecidableEq, Repr, Inhabited

/-- The schedule of arrivals each of which comes a `delay` after the one before it. -/
def Schedule.ofDelays (arrivals : List (Nat × Arrival)) : Schedule where
  coming := times 0 arrivals
where
  /-- Delays as times. -/
  times (t : Nat) : List (Nat × Arrival) → List (Nat × Arrival)
    | [] => []
    | (delay, a) :: rest => (t + delay, a) :: times (t + delay) rest

namespace Schedule

/-- Lets everything arrive that is due by `now`. -/
def settle (s : Schedule) : Schedule :=
  { s with
    inbound := (s.coming.takeWhile fun a => a.1 ≤ s.now).foldl (fun i a => i.receive a.2) s.inbound
    coming := s.coming.dropWhile fun a => a.1 ≤ s.now }

/-- The time of the next arrival, or the `deadline` if that is earlier. -/
def nextTime (s : Schedule) (deadline : Option Nat) : Option Nat :=
  match s.coming, deadline with
  | [], d => d
  | (t, _) :: _, none => some t
  | (t, _) :: _, some d => some (min t d)

/-- What reading came to: it is `finished` with a result, or it `hangs` because nothing will ever
happen again. -/
inductive Outcome (α : Type) where
  | finished (result : Except Error α) (rest : Schedule)
  | hangs
  deriving Repr

/-- Polls a reading, and moves the clock whenever it waits. Every move brings an arrival or uses up
one of the two limits that a reading can reach, which bounds `fuel`. -/
def run (poll : Nat → ρ → Inbound → Progress ρ α × Inbound) (deadline : ρ → Option Nat) :
    (fuel : Nat) → ρ → Schedule → Outcome α
  | 0, _, _ => .hangs
  | fuel + 1, reading, s =>
    let s := s.settle
    match poll s.now reading s.inbound with
    | (.finished result, i) => .finished result { s with inbound := i }
    | (.ongoing reading, i) =>
      let s := { s with inbound := i }
      match s.nextTime (deadline reading) with
      | none => .hangs
      | some t => run poll deadline fuel reading { s with now := max s.now t }

/-- Reads `want` octets, by `Fill.poll`. -/
def readFixed (s : Schedule) (want : Nat) (limit : Option Nat) : Outcome (Option String) :=
  run Fill.poll Fill.deadline (s.coming.length + 4) { want := want, limit := limit, since := s.now } s

/-- Reads one packet, by `PacketRead.poll`. -/
def readPacket (s : Schedule) (limits : ReadLimits) : Outcome (Option String) :=
  run (PacketRead.poll limits) PacketRead.deadline (s.coming.length + 4) (.start s.now) s

/-- How many octets are `pending` or still to come. -/
def octets (s : Schedule) : Nat :=
  s.inbound.pending.length + (s.coming.map fun a => a.2.size).foldl (· + ·) 0

/-- Reads at most `fuel` packets, each by `readPacket` from where the last one left off. -/
def readPacketsFor (limits : ReadLimits) :
    (fuel : Nat) → Schedule → List (Option (Except Error (Option String) × Nat))
  | 0, _ => []
  | fuel + 1, s =>
    match s.readPacket limits with
    | .hangs => [none]
    | .finished (.ok (some text)) rest =>
      some (.ok (some text), rest.now) :: readPacketsFor limits fuel rest
    | .finished result rest => [some (result, rest.now)]

/-- Reads packets until there is none, an error, or `hangs`, which is `none` here. Each result comes
with the time at which it was there. Every packet takes at least its length field, so there are no
more packets than `octets`. -/
def readPackets (s : Schedule) (limits : ReadLimits) :
    List (Option (Except Error (Option String) × Nat)) :=
  readPacketsFor limits (s.octets + 1) s

/-- Reads one request, by `RequestRead.poll`. -/
def readRequest (s : Schedule) : Outcome (Option Request) :=
  run RequestRead.poll (fun _ => none) (s.coming.length + 4) {} s

/-- Reads at most `fuel` requests, each by `readRequest` from where the last one left off. -/
def readRequestsFor : (fuel : Nat) → Schedule → List (Option (Except Error (Option Request)))
  | 0, _ => []
  | fuel + 1, s =>
    match s.readRequest with
    | .hangs => [none]
    | .finished (.ok (some r)) rest => some (.ok (some r)) :: readRequestsFor fuel rest
    | .finished (.error (.protocol fault)) rest =>
      some (.error (.protocol fault)) :: readRequestsFor fuel rest
    | .finished result _ => [some result]

/-- Reads requests until there is none, the stream fails, or `hangs`, which is `none` here. A frame
that is refused is followed by the next one. Every frame takes at least its NUL, so there are no more
frames than `octets`. -/
def readRequests (s : Schedule) : List (Option (Except Error (Option Request))) :=
  readRequestsFor (s.octets + 1) s

/-- All the octets of the stream, and how it goes on after them: the `Inbound` when everything has
arrived. -/
def contents (s : Schedule) : Inbound :=
  s.coming.foldl (fun i a => i.receive a.2) s.inbound

end Schedule

end Dbgp
