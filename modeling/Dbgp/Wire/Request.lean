import Dbgp.Error
import Dbgp.Text.Numeral
import Dbgp.Text.Utf8

/-!
# Requests

A `Request` is one command to the engine. On the wire it is a sequence of lines, each ended by a
newline: the command, then flag and value of every option, then the arguments; a NUL octet ends it.
`sortLines` sorts lines by their first character: a dash makes a line the flag of an option, whose
value is the line after it; every other line is an argument. The transaction id is an option like the
others, and the first one of every request that is built here.
-/

namespace Dbgp

/-- A command for the engine, as `encode` writes it. -/
structure Request where
  command : String
  transaction : UInt32
  options : List (String × String)
  arguments : List String
  /-- Whether its outcome is seen in notify packets and not in a response. -/
  isAsync : Bool
  deriving DecidableEq, Repr, Inhabited

namespace Request

/-- The flag `-i` of the transaction id. -/
def transactionFlag : String := "-i"

/-! ## Building -/

/-- A request with only its transaction id, under `transactionFlag`. -/
def new (command : String) (transaction : UInt32) : Request where
  command := command
  transaction := transaction
  options := [(transactionFlag, Text.Numeral.write transaction.toNat)]
  arguments := []
  isAsync := false

/-- A request without a response, which `isAsync` says. -/
def newAsync (command : String) (transaction : UInt32) : Request :=
  { new command transaction with isAsync := true }

/-- Adds an option at the end of `options`. -/
def withOption (r : Request) (flag value : String) : Request :=
  { r with options := r.options ++ [(flag, value)] }

/-- Adds an option whose value is a number, written by `Text.Numeral.write`. -/
def withNumber (r : Request) (flag : String) (value : UInt32) : Request :=
  r.withOption flag (Text.Numeral.write value.toNat)

/-- Adds an option, by `withOption`, if there is a value for it. -/
def withOptional (r : Request) (flag : String) : Option String → Request
  | none => r
  | some value => r.withOption flag value

/-- Adds an option with a number if there is one, by `withOptional`. -/
def withOptionalNumber (r : Request) (flag : String) (value : Option UInt32) : Request :=
  r.withOptional flag (value.map fun n => Text.Numeral.write n.toNat)

/-- Adds an argument at the end of `arguments`. -/
def withArgument (r : Request) (argument : String) : Request :=
  { r with arguments := r.arguments ++ [argument] }

/-- The value of the first of the `options` with a flag. -/
def option? (r : Request) (flag : String) : Option String :=
  (r.options.find? fun o => o.1 = flag).map (·.2)

/-! ## Text -/

/-- The request on one line, for people; `--` stands before the arguments. -/
def display (r : Request) : String :=
  r.command ++ String.join (r.options.map fun o => " " ++ o.1 ++ " " ++ o.2) ++
    (if r.arguments.isEmpty then "" else " -- " ++ " ".intercalate r.arguments)

/-! ## Writing -/

/-- The lines of a request: its `command`, then flag and value of every option, then the
`arguments`. -/
def lines (r : Request) : List String :=
  r.command :: (r.options.flatMap fun o => [o.1, o.2]) ++ r.arguments

/-- The text of a request: its `lines`, a newline after each, and the NUL character. -/
def encodeChars (r : Request) : List Char :=
  (r.lines.flatMap fun l => l.toList ++ ['\n']) ++ ['\x00']

/-- The octets of a request: `encodeChars` in UTF-8. -/
def encode (r : Request) : List UInt8 :=
  Text.Utf8.encodeChars r.encodeChars

/-! ## Reading -/

/-- The list without its last item, if that is the given item `a`. -/
def dropLastIf [DecidableEq α] (a : α) (as : List α) : List α :=
  if as.getLast? = some a then as.dropLast else as

/-- The pieces between newlines. There is always a first one, so `splitLines []` has one that is
empty. -/
def splitLines : List Char → List Char × List (List Char)
  | [] => ([], [])
  | c :: cs =>
    let (line, rest) := splitLines cs
    if c = '\n' then ([], line :: rest) else (c :: line, rest)

/-- Sorts the lines after the command into options, which begin with `-`, and arguments. -/
def sortLines : List (List Char) → Except ProtocolFault (List (String × String) × List String)
  | [] => .ok ([], [])
  | ('-' :: flag) :: [] => .error (.optionWithoutValue (String.ofList ('-' :: flag)))
  | ('-' :: flag) :: value :: rest => do
    let (options, arguments) ← sortLines rest
    .ok ((String.ofList ('-' :: flag), String.ofList value) :: options, arguments)
  | line :: rest => do
    let (options, arguments) ← sortLines rest
    .ok (options, String.ofList line :: arguments)

/-- Reads a request from its characters without the NUL: `splitLines`, then `sortLines`; the first
option `-i` has to be a number of 32 bits. -/
def decodeChars (cs : List Char) : Except ProtocolFault Request :=
  match splitLines (dropLastIf '\n' cs) with
  | ([], _) => .error .emptyCommand
  | (command, rest) => do
    let (options, arguments) ← sortLines rest
    let named := options.find? fun o => o.1 = transactionFlag
    match named.bind fun o => Text.Numeral.word32? o.2.toList with
    | none => .error (.noTransaction (String.ofList command))
    | some transaction =>
      .ok ⟨String.ofList command, transaction, options, arguments, false⟩

/-- Reads a request by `decodeChars`, with or without the NUL octet that ends it. -/
def decode (bytes : List UInt8) : Except ProtocolFault Request :=
  match Text.Utf8.decode (dropLastIf 0 bytes) with
  | .error f => .error (.commandEncoding f)
  | .ok cs => decodeChars cs

/-! ## Reading a stream of requests -/

/-- The octets up to and including the first NUL, and what follows it; `none` if there is no NUL. -/
def takeFrame? : List UInt8 → Option (List UInt8 × List UInt8)
  | [] => none
  | b :: bs =>
    if b = 0 then some ([b], bs) else (takeFrame? bs).map fun (frame, rest) => (b :: frame, rest)

/-- What follows a frame is shorter than the whole, which makes `decodeAll` end. -/
theorem takeFrame?_length {bs frame rest : List UInt8} (h : takeFrame? bs = some (frame, rest)) :
    rest.length < bs.length := by
  induction bs generalizing frame with
  | nil => simp [takeFrame?] at h
  | cons b bs ih =>
    by_cases hb : b = 0
    · simp [takeFrame?, hb] at h
      simp [h.2]
    · simp only [takeFrame?, hb, if_false, Option.map_eq_some_iff] at h
      obtain ⟨⟨f, r⟩, hr, he⟩ := h
      simp only [Prod.mk.injEq] at he
      have := ih (he.2 ▸ hr)
      simp only [List.length_cons]
      omega

/-- The requests of a stream, each read or refused by `decode`; a frame that is cut off is not
there. -/
def decodeAll (bytes : List UInt8) : List (Except ProtocolFault Request) :=
  match _h : takeFrame? bytes with
  | none => []
  | some (frame, rest) => decode frame :: decodeAll rest
termination_by bytes.length
decreasing_by exact takeFrame?_length (by assumption)

end Request

end Dbgp
