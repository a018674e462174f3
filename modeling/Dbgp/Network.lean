import Dbgp.Error
import Dbgp.Text.Numeral

/-!
# Networks

What a machine offers to those who want to `dial`: either its addresses can be reached, or they
cannot. Listening works either way, on addresses that the machine has, as `canListen` says.
-/

namespace Dbgp

/-- What a machine offers to `dial`. -/
inductive Network where
  | loopback
  | unreachable
  deriving DecidableEq, Repr, Inhabited

namespace Network

/-- Connects to an address of the machine, or fails with `unreachable`. -/
def dial : Network → Except Error Unit
  | .loopback => .ok ()
  | .unreachable => .error (.transport .unreachable)

/-- The numbers between the dots of a text: each below 256, of at most three digits and without a
leading `0`. -/
def quad? (host : String) : Option (List Nat) :=
  (pieces host.toList []).mapM fun part =>
    if part.length ≤ 3 ∧ (part.head? ≠ some '0' ∨ part.length = 1) then
      (Text.Numeral.digits? part).filter (· < 256)
    else none
where
  /-- The pieces between dots. -/
  pieces : List Char → List Char → List (List Char)
    | [], piece => [piece.reverse]
    | '.' :: rest, piece => piece.reverse :: pieces rest []
    | c :: rest, piece => pieces rest (c :: piece)

/-- Whether the machine can listen on an address: `localhost` and what belongs to it, or all
addresses. -/
def canListen (host : String) : Bool :=
  host = "localhost" || host = "::1" || host = "::" ||
    match quad? host with
    | some [127, _, _, _] => true
    | some [0, 0, 0, 0] => true
    | _ => false

end Network

end Dbgp
