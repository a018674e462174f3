import Dbgp.Bridge.Program
import Dbgp.CommandLine
import Std.Async.DNS
import Std.Async.TCP
import Std.Async.Timer
import Std.Sync.Channel

/-!
# The program

Carries octets and times between the outside and the bridge: standard input, sockets of engines and the
clock go in, standard output and sockets take what comes out. Everything that is decided is decided by
`Program`.
-/

namespace Dbgp.Main

open Std.Async
open Std.Net

/-- Something that happens outside and goes through the channel `events` to `loop`. -/
inductive Occurrence where
  | input (bytes : ByteArray)
  | inputEnd
  | engine (socket : TCP.Socket.Client)
  | data (connection : Nat) (bytes : ByteArray)
  | closed (connection : Nat)
  | broken (connection : Nat) (text : String)
  | alarm

instance : Inhabited Occurrence := ⟨.alarm⟩

/-- What the outer layer knows: the `program` and the sockets of its connections. -/
structure World where
  program : Program
  config : Config
  /-- The time at which the program began. -/
  epoch : Nat
  sockets : List (Nat × TCP.Socket.Client) := []
  /-- Connections that have been shut down. -/
  shut : List Nat := []
  events : Std.Channel Occurrence
  /-- The deadline for which an alarm is set. -/
  alarm : Option Nat := none
  /-- When the program ends at the latest, once input has ended. -/
  closing : Option Nat := none

/-- How many milliseconds `beginClosing` gives each session to end after the input has ended. -/
def grace : Nat := 2000

/-- How long `watchServer` waits after an engine could not be accepted. -/
def backoff : Std.Time.Millisecond.Offset := 100

/-- The address to listen on: `host` as an address, or else the first one that its name has. -/
def resolve (host : String) (port : UInt16) : IO SocketAddress := do
  let ofAddr : IPAddr → SocketAddress
    | .v4 a => .v4 ⟨a, port⟩
    | .v6 a => .v6 ⟨a, port⟩
  match IPv4Addr.ofString host, IPv6Addr.ofString host with
  | some a, _ => return ofAddr (.v4 a)
  | none, some a => return ofAddr (.v6 a)
  | none, none =>
    let found ← (DNS.getAddrInfo host "").block
    match found[0]? with
    | some a => return ofAddr a
    | none => throw (IO.userError ("no address for " ++ host))

/-- An address as text, as the caller is told it by `initialize`. -/
def addressText : SocketAddress → String
  | .v4 a => s!"{a.addr.toString}:{a.port}"
  | .v6 a => s!"[{a.addr.toString}]:{a.port}"

/-- Passes on what arrives on standard input, line by line, as `Occurrence.input`. -/
partial def watchInput (stdin : IO.FS.Stream) (events : Std.Channel Occurrence)
    (line : ByteArray) : IO Unit := do
  let bytes ← stdin.read 1
  let line := line ++ bytes
  if bytes.isEmpty then
    let _ ← events.send (.input line)
    discard (events.send .inputEnd)
  else if bytes.toList = [10] then
    let _ ← events.send (.input line)
    watchInput stdin events .empty
  else watchInput stdin events line

/-- Passes on what arrives from an engine, as `Occurrence.data`, until the connection is closed or
broken. -/
partial def watchEngine (connection : Nat) (socket : TCP.Socket.Client)
    (events : Std.Channel Occurrence) : Async Unit := do
  let found ← try Except.ok <$> socket.recv? 4096 catch e => pure (.error e)
  match found with
  | .ok (some bytes) =>
    let _ ← events.send (.data connection bytes)
    watchEngine connection socket events
  | .ok none => discard (events.send (.closed connection))
  | .error e => discard (events.send (.broken connection e.toString))

/-- Passes on engines that connect, as `Occurrence.engine`. -/
partial def watchServer (server : TCP.Socket.Server) (events : Std.Channel Occurrence) :
    Async Unit := do
  try
    let socket ← server.accept
    discard (events.send (.engine socket))
  catch _ => sleep backoff
  watchServer server events

/-- Passes on that a time has passed, as `Occurrence.alarm`. -/
def watchTime (millis : Nat) (events : Std.Channel Occurrence) : Async Unit := do
  sleep (Std.Time.Millisecond.Offset.ofNat millis)
  discard (events.send .alarm)

/-- Writes out what the program has said in its `outbox` and what the outlets of its sessions have for
engines. -/
def flush (w : World) : IO World := do
  let stdout ← IO.getStdout
  for m in w.program.bridge.outbox do
    stdout.putStrLn m.line
  stdout.flush
  let mut client := w.program.bridge.client
  let mut shut := w.shut
  for s in client.sessions do
    match w.sockets.find? fun p => p.1 = s.connection with
    | none => pure ()
    | some (c, socket) =>
      if !s.outlet.written.isEmpty then
        let sent ← (socket.send ⟨s.outlet.written.toArray⟩).block.toBaseIO
        let fault := match sent with
          | .ok _ => none
          | .error _ => some OutletFault.onWrite
        client := client.modifyOutlet c fun o => { o with written := [], fault }
      if s.outlet.shut && !shut.contains c then
        let _ ← socket.shutdown.block.toBaseIO
        shut := c :: shut
  return { w with shut, program.bridge := { w.program.bridge with client, outbox := [] } }

/-- Changes the bridge and lets it `settle`. -/
def change (w : World) (f : Bridge → Bridge) : World :=
  { w with program.bridge := (f w.program.bridge).settle }

/-- Takes an `Occurrence`: input goes to the program, what comes from engines to the client. -/
def take (w : World) : Occurrence → IO World
  | .alarm => return { w with alarm := none }
  | .input bytes => return { w with program := w.program.feed bytes.toList }
  | .inputEnd => return { w with program := w.program.endInput }
  | .engine socket => do
    let (connection, client) := w.program.bridge.client.accept w.config
    let _ ← (watchEngine connection socket w.events).toIO
    let w := { w with sockets := (connection, socket) :: w.sockets }
    return change w fun b => { b with client }
  | .data connection bytes =>
    return change w fun b =>
      { b with client := b.client.modifyInbound connection (·.feed bytes.toList) }
  | .closed connection =>
    return change w fun b => { b with client := b.client.modifyInbound connection (·.close) }
  | .broken connection text =>
    return change w fun b => { b with client := b.client.modifyInbound connection (·.fail text) }

/-- Sees to it that an `alarm` comes at the `nextDeadline` at the latest. -/
def setAlarm (w : World) : IO World := do
  match w.program.bridge.client.nextDeadline with
  | none => return w
  | some t =>
    if w.alarm.any (· ≤ t) then return w
    let pause := min (t - w.program.bridge.client.now) 60000
    let _ ← (watchTime pause w.events).toIO
    return { w with alarm := some t }

/-- Whether there is more to do: input to read, or sessions that end and have time left until
`closing`. -/
def isBusy (w : World) : Bool :=
  match w.closing with
  | none => w.program.reading
  | some limit =>
    w.program.bridge.client.now < limit &&
      w.program.bridge.registry.tracked.any fun id =>
        (w.program.bridge.client.session? id).any fun s => s.lifecycle.stage != .terminated

/-- Begins to end the sessions by `Program.finish`, once input is no longer read. -/
def beginClosing (w : World) : IO World := do
  if w.program.reading || w.closing.isSome then return w
  let program := w.program.finish
  let time := grace * program.bridge.registry.tracked.length
  let _ ← (watchTime time w.events).toIO
  flush { w with program, closing := some (program.bridge.client.now + time) }

/-- Takes one `Occurrence` after the other until the input ends and the sessions have ended. -/
partial def loop (w : World) : IO Unit := do
  let w ← setAlarm w
  let occurrence ← IO.wait (← w.events.recv)
  let elapsed := (← IO.monoMsNow) - w.epoch
  let w := { w with
    program.bridge := w.program.bridge.advance (elapsed - w.program.bridge.client.now) }
  let w ← beginClosing (← flush (← take w occurrence))
  if isBusy w then loop w

/-- Listens for engines and serves the caller, by `loop`. -/
def serve (settings : CommandLine.Settings) : IO Unit := do
  let server ← TCP.Socket.Server.mk
  server.bind (← resolve settings.host settings.port)
  server.listen 128
  let address := addressText (← server.getSockName)
  let events ← Std.Channel.new
  let _ ← IO.asTask (watchInput (← IO.getStdin) events .empty) Task.Priority.dedicated
  let _ ← (watchServer server events).toIO
  let w : World :=
    { program := { bridge := { address } }, config := settings.config, epoch := ← IO.monoMsNow
      events }
  loop w

end Dbgp.Main

open Dbgp in
/-- The command line of the bridge, read by `CommandLine.parse`. -/
def main (words : List String) : IO UInt32 := do
  let values ← CommandLine.Opt.all.mapM fun o => return (o.envName, ← IO.getEnv o.envName)
  let env := fun key => (values.lookup key).join
  match CommandLine.parse words env with
  | .help => IO.print (CommandLine.helpText env); return 0
  | .version => IO.print CommandLine.versionText; return 0
  | .misuse => IO.eprint CommandLine.usageText; return CommandLine.misuseCode.toUInt32
  | .run settings =>
    try
      Main.serve settings
      return 0
    catch e =>
      IO.eprintln s!"Error: {e}"
      return 1
