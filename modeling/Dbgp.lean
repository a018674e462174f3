import Dbgp.Bridge.Action
import Dbgp.Bridge.Basic
import Dbgp.Bridge.Catalogue
import Dbgp.Bridge.Forwarder
import Dbgp.Bridge.Message
import Dbgp.Bridge.Program
import Dbgp.Bridge.Registry
import Dbgp.Client
import Dbgp.Command
import Dbgp.CommandLine
import Dbgp.Config
import Dbgp.Error
import Dbgp.Json.Numeral
import Dbgp.Json.Parser
import Dbgp.Json.Printer
import Dbgp.Json.Reading
import Dbgp.Json.Value
import Dbgp.Main
import Dbgp.Model.Breakpoint
import Dbgp.Model.Engine
import Dbgp.Model.Property
import Dbgp.Model.Spawnpoint
import Dbgp.Model.Stack
import Dbgp.Network
import Dbgp.Number.Binary64
import Dbgp.Number.Shortest
import Dbgp.Packet
import Dbgp.Proofs.Numeral
import Dbgp.Proofs.Utf8
import Dbgp.Session.Basic
import Dbgp.Session.Exchange
import Dbgp.Session.Lifecycle
import Dbgp.Session.Mailbox
import Dbgp.Session.Outlet
import Dbgp.Session.Receiver
import Dbgp.Session.Slots
import Dbgp.Session.Task
import Dbgp.Session.Turn
import Dbgp.Text.Base64
import Dbgp.Proofs.Base64
import Dbgp.Text.Blank
import Dbgp.Text.Numeral
import Dbgp.Text.Printable
import Dbgp.Text.Quoted
import Dbgp.Text.Utf8
import Dbgp.Vocabulary
import Dbgp.Wire.Frame
import Dbgp.Wire.Inbound
import Dbgp.Wire.Request
import Dbgp.Wire.Schedule
import Dbgp.Xml.Character
import Dbgp.Xml.Element
import Dbgp.Xml.Markup
import Dbgp.Xml.Namespace
import Dbgp.Proofs.RequestFraming
import Dbgp.Proofs.RequestStream
import Dbgp.Proofs.ClientRun
import Dbgp.Proofs.SessionActions
import Dbgp.Proofs.CommandRequest
import Dbgp.Proofs.SlotUse
import Dbgp.Proofs.Correlation
import Dbgp.Proofs.WakeUp
import Dbgp.Proofs.BridgeRun
import Dbgp.Proofs.Emission
import Dbgp.Proofs.CallerText
import Dbgp.Proofs.Scheduling
import Dbgp.Proofs.PacketStream
import Dbgp.Proofs.PacketFraming
import Dbgp.Proofs.ConnectionChange
import Dbgp.Proofs.Dispatch
import Dbgp.Proofs.Reception
import Dbgp.Proofs.Unwinding
import Dbgp.Proofs.Transmission
import Dbgp.Proofs.SlotOwnership
import Dbgp.Proofs.Race
import Dbgp.Proofs.Termination
import Dbgp.Proofs.Outcome
import Dbgp.Proofs.Closing
import Dbgp.Proofs.BridgeMoves
import Dbgp.Proofs.Recoverability
import Dbgp.Proofs.Negotiation
import Dbgp.Proofs.OwnRequest
import Dbgp.Proofs.Lines
import Dbgp.Proofs.Mailboxes
import Dbgp.Proofs.Notices
import Dbgp.Proofs.Forwarding
import Dbgp.Proofs.RegistryRace
import Dbgp.Proofs.BreakpointListing
import Dbgp.Proofs.EndReason
import Dbgp.Proofs.Finality
import Dbgp.Proofs.LateCommands
import Dbgp.Proofs.CommandStream
import Dbgp.Proofs.WrittenDocument
import Dbgp.Proofs.Spelling
import Dbgp.Proofs.DocumentReading
import Dbgp.Proofs.CallTarget
import Dbgp.Proofs.Rejection
import Dbgp.Proofs.NextPacket
import Dbgp.Proofs.OutputDelivery
import Dbgp.Proofs.CanonicalBase64
import Dbgp.Proofs.RequestArrival
import Dbgp.Proofs.CanonicalRequest
import Dbgp.Proofs.CurrentSession
import Dbgp.Proofs.PropertyTree
import Dbgp.Proofs.ExpressionText
import Dbgp.Proofs.TimedReading
import Dbgp.Proofs.MailLine
import Dbgp.Proofs.ReceiveDeadline
import Dbgp.Proofs.PropertySearch
import Dbgp.Proofs.LengthField
import Dbgp.Proofs.StackFrames
import Dbgp.Proofs.ContextProperties
import Dbgp.Proofs.JsonTolerance
import Dbgp.Proofs.ValueObjects
