import Dbgp.Error
import Dbgp.Text.Blank
import Dbgp.Text.Numeral
import Dbgp.Text.Utf8

/-!
# Packet frames

What the engine sends is a sequence of packets, each a field of ten octets with the length of the
payload in decimal digits, followed by the payload. `next` is the rule by which octets become
payloads; it looks at octets only, and not at how they arrived.
-/

namespace Dbgp.Frame

/-- The width of the length field, which `encode` fills up with zeros. -/
def fieldWidth : Nat := 10

/-- The length a field gives: a numeral of 64 bits with padding around it, as `Text.isPadding` has
it. -/
def length? (field : String) : Option Nat :=
  Text.Numeral.below? UInt64.size (Text.trimChars Text.isPadding field.toList)

/-- A packet as the engine sends it: the length of the payload in `fieldWidth` digits, then the
payload. -/
def encode (payload : String) : List UInt8 :=
  let bytes := Text.Utf8.encode payload
  Text.Utf8.encode (Text.Numeral.writeWidth fieldWidth bytes.length) ++ bytes

/-- The first payload of a finished stream and the octets after it. It is `none` when the stream ends
inside a packet, or when the length field is no number. -/
def next (limit : Nat) (bytes : List UInt8) :
    Except ProtocolFault (Option (String × List UInt8)) :=
  if bytes.length < fieldWidth then .ok none
  else
    match length? (Text.Utf8.lossy (bytes.take fieldWidth)) with
    | none => .ok none
    | some n =>
      let rest := bytes.drop fieldWidth
      if limit < n then .error (.packetTooLarge n limit)
      else if rest.length < n then .ok none
      else .ok (some (Text.Utf8.lossy (rest.take n), rest.drop n))

end Dbgp.Frame
