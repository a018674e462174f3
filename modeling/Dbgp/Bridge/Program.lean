import Dbgp.Bridge.Basic
import Dbgp.Json.Parser

/-!
# The bridge as a program

`Program` is the bridge with its input, one JSON text per line. A line with an id is a call, another
one a notice, which has no effect. What is no JSON, or no call, is answered by a failure without an
id; a bad notice is not answered. A line that is not UTF-8 ends the input.
-/

namespace Dbgp

open Rpc (Call Failure)

/-- A `Bridge` with its input. -/
structure Program where
  bridge : Bridge
  /-- Octets of a line whose end has not come. -/
  line : List UInt8 := []
  /-- Whether input is still read. -/
  reading : Bool := true

namespace Program

/-- Answers a line by a failure, with the id `null`. -/
def refuse (f : Failure) (b : Bridge) : Bridge :=
  { b with nextSerial := b.nextSerial + 1 }.say (.answer b.nextSerial ⟨.null, .error f⟩)

/-- Takes the JSON of a line: a call if it has a member `id`, otherwise a notice. -/
def takeJson (v : Json) (b : Bridge) : Bridge :=
  match v.get? "id" with
  | none => b
  | some _ =>
    match Call.ofJson v with
    | .ok c => b.call c
    | .error _ => refuse .invalidCall b

/-- Takes a line: a blank one has no effect, and one that is no JSON is refused by `Failure.parse`. -/
def takeLine (text : String) (b : Bridge) : Bridge :=
  let text := Text.trim text
  if text = "" then b
  else
    match Json.parse? text with
    | some v => takeJson v b
    | none => refuse .parse b

/-- Takes the octets of a line, after which the bridge acts until all wait; `reading` ends if they are
no UTF-8. -/
def takeBytes (bytes : List UInt8) (p : Program) : Program :=
  match Text.Utf8.decode bytes with
  | .ok cs => { p with bridge := (takeLine (String.ofList cs) p.bridge).settle, line := [] }
  | .error _ => { p with reading := false, line := [] }

/-- Takes input: every newline ends a line, which `takeBytes` takes. -/
def feed (bytes : List UInt8) (p : Program) : Program :=
  if p.reading then
    let line := p.line ++ bytes.takeWhile (· ≠ 10)
    match _h : bytes.dropWhile (· ≠ 10) with
    | [] => { p with line }
    | _ :: rest => feed rest (p.takeBytes line)
  else p
termination_by bytes.length
decreasing_by
  have h := (List.dropWhile_suffix (l := bytes) fun b : UInt8 => b ≠ 10).length_le
  rw [_h, List.length_cons] at h
  omega

/-- The input ends. What is left in `line` is taken as a line. -/
def endInput (p : Program) : Program :=
  let p := if p.reading ∧ p.line ≠ [] then p.takeBytes p.line else p
  { p with reading := false }

/-- Ends the `tracked` sessions one after the other, by a job `terminate` for each. -/
def endSessions (b : Bridge) : Bridge :=
  b.registry.tracked.foldl (fun b id =>
    let (_, client) := b.client.start id .terminate
    { b with client }.settle) b

/-- The end of the program: `endInput`, then `endSessions`. -/
def finish (p : Program) : Program :=
  let p := p.endInput
  { p with bridge := endSessions p.bridge }

end Program

end Dbgp
