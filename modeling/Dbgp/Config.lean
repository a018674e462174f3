import Dbgp.Json.Reading

/-!
# Session configuration

The limits of a session, in a `Config`. Times are whole milliseconds.
-/

namespace Dbgp

/-- The limits of a `Session`. -/
structure Config where
  /-- How long a command waits for its response. -/
  responseTimeout : UInt64 := 10000
  /-- How long one read inside a packet waits for octets; without it, for ever. -/
  readTimeout : Option UInt64 := none
  /-- The longest packet that is read. -/
  maxPacketSize : UInt64 := 10 * 1024 * 1024
  /-- How long a new connection waits for the init packet. -/
  handshakeTimeout : UInt64 := 5000
  deriving DecidableEq, Repr, Inhabited

namespace Config

/-- Replaces `responseTimeout` by a time in microseconds, of which only whole milliseconds count. -/
def withResponseMicros (c : Config) (micros : UInt64) : Config :=
  { c with responseTimeout := micros / 1000 }

/-- A configuration as JSON; `read_timeout_ms` is `null` if there is none. -/
def toJson (c : Config) : Json :=
  .object
    [("response_timeout_ms", .nat c.responseTimeout.toNat),
     ("read_timeout_ms", Json.option (fun t => .nat t.toNat) c.readTimeout),
     ("max_packet_size", .nat c.maxPacketSize.toNat),
     ("handshake_timeout_ms", .nat c.handshakeTimeout.toNat)]

/-- The fields of a configuration, each of which has a `default`. -/
def fields : Json.Fields Config :=
  let base : Config := {}
  Config.mk
    <$> .default "response_timeout_ms" base.responseTimeout Json.Reader.word64
    <*> .default "read_timeout_ms" base.readTimeout (Json.Reader.nullable Json.Reader.word64)
    <*> .default "max_packet_size" base.maxPacketSize Json.Reader.size
    <*> .default "handshake_timeout_ms" base.handshakeTimeout Json.Reader.word64

/-- Reads a `Config`, of which any field may be left out. -/
def ofJson : Json.Reader Config :=
  fields.record "DbgpConfig"

end Config

end Dbgp
