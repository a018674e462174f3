import Dbgp.Text.Base64
import Dbgp.Text.Numeral
import Dbgp.Text.Utf8
import Dbgp.Vocabulary

/-!
# Errors

What can go wrong with a session, by cause. `Error.message` is the one place where causes are put
into words. A session goes on after a recoverable error and is over after any other.
-/

namespace Dbgp

/-- Causes in what the other side of a connection has written; `message` puts them into words. -/
inductive ProtocolFault where
  | commandEncoding (fault : Text.Utf8.Fault)
  | emptyCommand
  | optionWithoutValue (flag : String)
  | noTransaction (command : String)
  | packetTooLarge (length limit : Nat)
  | malformedXml
  | missingAttribute (element name : String)
  | badAttribute (element name value : String)
  | unknownEncoding (element encoding : String)
  | badBase64 (fault : Text.Base64.Fault)
  | unknownWord (vocabulary word : String)
  | responseWithoutTransaction
  | lateInit
  | unknownPacket (element : String)
  | notInit (element : String)
  | noInitWithin (millis : Nat)
  | noStatus (command : String)
  | noProperty (command : String)
  | frameWithoutLevel
  | noDepth
  | described (text : String)
  deriving DecidableEq, Repr

namespace ProtocolFault

/-- A fault in words. -/
def message : ProtocolFault → String
  | .commandEncoding f => "Invalid UTF-8 in command: " ++ f.message
  | .emptyCommand => "Empty command frame"
  | .optionWithoutValue flag => "Option '" ++ flag ++ "' has no value"
  | .noTransaction command => "Command '" ++ command ++ "' has no transaction id"
  | .packetTooLarge length limit => s!"Packet too large: {length} bytes (max: {limit} bytes)"
  | .malformedXml => "Malformed XML"
  | .missingAttribute element name =>
    "<" ++ element ++ "> is missing attribute '" ++ name ++ "'"
  | .badAttribute element name value =>
    "<" ++ element ++ "> attribute '" ++ name ++ "' has invalid value '" ++ value ++ "'"
  | .unknownEncoding element encoding =>
    "Unsupported encoding '" ++ encoding ++ "' on <" ++ element ++ ">"
  | .badBase64 f => "Invalid base64 payload: " ++ f.message
  | .unknownWord vocabulary word => "Unknown " ++ vocabulary ++ " value '" ++ word ++ "'"
  | .responseWithoutTransaction => "Response without transaction_id"
  | .lateInit => "Unexpected init packet after handshake"
  | .unknownPacket element => "Unknown packet type <" ++ element ++ ">"
  | .notInit element => "Expected init packet, got <" ++ element ++ ">"
  | .noInitWithin millis => s!"No init packet within {millis}ms"
  | .noStatus command => command ++ " response without status"
  | .noProperty command => command ++ " response without <property>"
  | .frameWithoutLevel => "<stack> without level"
  | .noDepth => "stack_depth response without depth"
  | .described text => text

end ProtocolFault

/-- Causes in the connection; `described` has the words that the system gave. -/
inductive TransportFault where
  | closedBeforeInit
  | unreachable
  | described (text : String)
  deriving DecidableEq, Repr

/-- A fault in words. -/
def TransportFault.message : TransportFault → String
  | .closedBeforeInit => "Connection closed before init packet"
  | .unreachable => "Network is unreachable (os error 101)"
  | .described text => text

/-- What a session reports when it cannot do what was asked. -/
inductive Error where
  /-- The connection failed. -/
  | transport (fault : TransportFault)
  /-- The other side wrote something that is not allowed. -/
  | protocol (fault : ProtocolFault)
  /-- The engine refused a command. -/
  | remote (code : Int32) (text : String)
  /-- No response came in time. -/
  | timeout (transaction : UInt32)
  /-- The session is over. -/
  | terminated
  deriving DecidableEq, Repr

namespace Error

/-- An error in words, as `Failure.ofError` tells a caller. -/
def message : Error → String
  | .transport fault => "Transport error: " ++ fault.message
  | .protocol fault => "Protocol error: " ++ fault.message
  | .remote code text => "DBGP error code " ++ Text.Numeral.writeInt code.toInt ++ ": " ++ text
  | .timeout t => s!"Timed out waiting for response to transaction {t.toNat}"
  | .terminated => "Session terminated"

/-- Whether the session can serve further commands: after `transport` and `terminated` it cannot. -/
def isRecoverable : Error → Bool
  | .protocol _ | .remote _ _ | .timeout _ => true
  | .transport _ | .terminated => false

end Error

/-- The standard text for an engine's error code, used by `Response.error?` when the engine gives
none. -/
def standardText (code : Int32) : String :=
  match code.toInt with
  | 0 => "no error"
  | 1 => "parse error in command"
  | 2 => "duplicate arguments in command"
  | 3 => "invalid or missing options"
  | 4 => "unimplemented command"
  | 5 => "command is not available"
  | 100 => "can not open file"
  | 101 => "stream redirect failed"
  | 200 => "breakpoint could not be set"
  | 201 => "breakpoint type not supported"
  | 202 => "invalid breakpoint"
  | 203 => "no code on breakpoint line"
  | 204 => "invalid breakpoint state"
  | 205 => "no such breakpoint"
  | 206 => "error evaluating code"
  | 207 => "invalid expression"
  | 208 => "spawnpoint could not be set"
  | 300 => "can not get property"
  | 301 => "stack depth invalid"
  | 302 => "context invalid"
  | 303 => "unknown or unsupported encoding"
  | 304 => "property does not exist"
  | 900 => "encoding not supported"
  | 998 => "an internal exception in the debugger occurred"
  | _ => "unknown error"

/-- The value that `Vocabulary.find?` has for a word, or the fault of an unknown one. -/
def readWord (α : Type) [Vocabulary α] (s : String) : Except Error α :=
  match Vocabulary.find? s with
  | some a => .ok a
  | none => .error (.protocol (.unknownWord (Vocabulary.title α) s))

end Dbgp
