import Dbgp.Proofs.Numeral
import Dbgp.Proofs.PacketStream
import Dbgp.Proofs.Utf8

/-!
# Reading back packets

A packet as the engine sends it is cut off a stream with exactly its octets, whatever follows it
(`Frame.next_encode`). The length field has ten digits, so this holds for payloads of fewer than ten to
the tenth octets that the limit admits.
-/

namespace Dbgp.Frame

/-- `length?` reads the length that `writeWidth` writes into a length field. -/
theorem length?_writeWidth {n : Nat} (h : n < 10 ^ fieldWidth) :
    length? (Text.Numeral.writeWidth fieldWidth n) = some n := by
  have hfits : n < UInt64.size := Nat.lt_trans h (by decide)
  have hdigits : ∀ c ∈ (Text.Numeral.writeWidth fieldWidth n).toList, ¬Text.isPadding c :=
    fun c hc => (Text.not_blank_of_isDigit (Text.Numeral.isDigit_of_mem_writeWidth hc)).2
  rw [length?, Text.trimChars_of_forall_not hdigits, Text.Numeral.below?,
    Text.Numeral.nat?_writeWidth, Option.filter_some, if_pos (decide_eq_true hfits)]

/-- The length field that `writeWidth` writes has `fieldWidth` octets. -/
theorem length_encode_writeWidth {n : Nat} (h : n < 10 ^ fieldWidth) :
    (Text.Utf8.encode (Text.Numeral.writeWidth fieldWidth n)).length = fieldWidth := by
  have hascii : ∀ c ∈ (Text.Numeral.writeWidth fieldWidth n).toList, c.val ≤ 0x7F := by
    intro c hc
    have hdigit := Text.Numeral.isDigit_of_mem_writeWidth hc
    simp only [Char.isDigit, Bool.and_eq_true, decide_eq_true_eq] at hdigit
    exact UInt32.le_trans hdigit.2 (by decide)
  rw [Text.Utf8.encode, Text.Utf8.length_encodeChars hascii,
    Text.Numeral.length_writeWidth (by decide) h]

/-- `next` cuts off a packet that `encode` has written with exactly its octets. -/
theorem next_encode {limit : Nat} {payload : String} (hlimit : limit < 10 ^ fieldWidth)
    (hpayload : (Text.Utf8.encode payload).length ≤ limit) (rest : List UInt8) :
    next limit (encode payload ++ rest) = .ok (some (payload, rest)) := by
  have hlength : (Text.Utf8.encode payload).length < 10 ^ fieldWidth :=
    Nat.lt_of_le_of_lt hpayload hlimit
  have hfield := length_encode_writeWidth hlength
  have htake : (encode payload ++ rest).take fieldWidth =
      Text.Utf8.encode (Text.Numeral.writeWidth fieldWidth (Text.Utf8.encode payload).length) := by
    rw [encode, List.append_assoc, List.take_left' hfield]
  have hdrop : (encode payload ++ rest).drop fieldWidth = Text.Utf8.encode payload ++ rest := by
    rw [encode, List.append_assoc, List.drop_left' hfield]
  have hlong : ¬(encode payload ++ rest).length < fieldWidth := by
    rw [encode, List.length_append, List.length_append, hfield]
    omega
  have hwhole : ¬(Text.Utf8.encode payload ++ rest).length < (Text.Utf8.encode payload).length := by
    rw [List.length_append]
    omega
  rw [next, if_neg hlong, htake, Text.Utf8.lossy_encode, length?_writeWidth hlength]
  simp only [hdrop]
  rw [if_neg (Nat.not_lt_of_le hpayload), if_neg hwhole, List.take_left, List.drop_left,
    Text.Utf8.lossy_encode]

end Dbgp.Frame
