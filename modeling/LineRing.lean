import LineRing.Bytes
import LineRing.Calendar
import LineRing.CommandLine.Client
import LineRing.CommandLine.Options
import LineRing.CommandLine.Serve
import LineRing.Config
import LineRing.Connection
import LineRing.Directive
import LineRing.Directive.Lemmas
import LineRing.Draft
import LineRing.Endpoint
import LineRing.Failure
import LineRing.Handle
import LineRing.Host
import LineRing.HostAddress
import LineRing.Log
import LineRing.Log.Lemmas
import LineRing.Main
import LineRing.Memory
import LineRing.Network
import LineRing.Peers
import LineRing.Ring
import LineRing.Ring.Lemmas
import LineRing.Server
import LineRing.Service
import LineRing.Session
import LineRing.Sink
import LineRing.Stamp
import LineRing.Store
import LineRing.Text.Blank
import LineRing.Text.CodeRange
import LineRing.Text.Extender
import LineRing.Text.Ignorable
import LineRing.Text.Numeral
import LineRing.Text.Parts
import LineRing.Text.Quoted
import LineRing.Text.Unprintable
import LineRing.Text.Utf8
import LineRing.Workers
import LineRing.Proofs.Handle.Operation
import LineRing.Proofs.Ring.Queue
import LineRing.Proofs.Ring.Slots
import LineRing.Proofs.Session.Settle
import LineRing.Proofs.Host.Effect
import LineRing.Proofs.Host.Order
import LineRing.Proofs.Handle.Read
import LineRing.Proofs.Host.Seek
import LineRing.Proofs.Session.Delivery
import LineRing.Proofs.Host.Ledger
import LineRing.Proofs.Log.Slices
import LineRing.Proofs.Log.Reply
import LineRing.Proofs.Host.Isolation
import LineRing.Proofs.Host.Reads
import LineRing.Proofs.Log.Addresses
import LineRing.Proofs.Host.Content
import LineRing.Proofs.Workers.Gate
import LineRing.Proofs.Server.Stop
import LineRing.Proofs.Directive.Grammar
import LineRing.Proofs.Log.Shift
import LineRing.Proofs.Host.Cursor
import LineRing.Proofs.Handle.Failure
import LineRing.Proofs.Host.Failure
import LineRing.Proofs.Session.Closing
import LineRing.Proofs.Directive.Canonical
import LineRing.Proofs.Workers.History
import LineRing.Proofs.Connection.Parting
import LineRing.Proofs.Handle.Seek
import LineRing.Proofs.Host.Position
import LineRing.Proofs.Checked.Ring
import LineRing.Proofs.Checked.Creation
import LineRing.Proofs.Checked.Log
import LineRing.Proofs.Directive.Message
import LineRing.Proofs.Checked.Session
