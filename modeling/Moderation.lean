import Moderation.Main
import Moderation.Rehearsal.Run
import Moderation.Wire.Script
import Moderation.Proofs.Edit
import Moderation.Proofs.Table
import Moderation.Proofs.Queue.Effect
import Moderation.Proofs.Queue.Run
import Moderation.Proofs.Queue.History
import Moderation.Proofs.Specimen
import Moderation.Proofs.Queue.Lock
import Moderation.Proofs.Queue.Told
import Moderation.Proofs.Throughout
import Moderation.Proofs.Queue.Agreement
import Moderation.Proofs.Store
import Moderation.Proofs.Replica
import Moderation.Proofs.Session.Mirror
import Moderation.Proofs.Session.Alone
import Moderation.Proofs.Session.AtMostOnce
import Moderation.Proofs.Session.Faithful
import Moderation.Proofs.Marker
import Moderation.Proofs.Session.Traffic
import Moderation.Proofs.Text.Digits
import Moderation.Proofs.Json.Numeral
import Moderation.Proofs.Json.Quote
import Moderation.Proofs.Json.Reading
import Moderation.Proofs.Number.Magnitude
import Moderation.Proofs.Number.Rounding
import Moderation.Proofs.Number.Scale
import Moderation.Proofs.Number.Shortest
import Moderation.Proofs.Json.Value
import Moderation.Proofs.Json.Fields
import Moderation.Proofs.Json.Reread
import Moderation.Proofs.Document.Legible
import Moderation.Proofs.Document.Reads
import Moderation.Proofs.Document.Record
import Moderation.Proofs.Time
import Moderation.Proofs.Wire.Reviewable
import Moderation.Proofs.Wire.Result
import Moderation.Proofs.Queue.Legible
import Moderation.Proofs.Http.Client
import Moderation.Proofs.Http.Replies
import Moderation.Proofs.Session.Waiting
import Moderation.Proofs.Text.Utf8
import Moderation.Proofs.Text.Split
import Moderation.Proofs.Json.Visible
import Moderation.Proofs.Wire.Event
import Moderation.Proofs.EventStream
import Moderation.Proofs.Http.Atomic
import Moderation.Proofs.Http.Request
import Moderation.Proofs.Http.Exchange
import Moderation.Proofs.Queue.Resolution
import Moderation.Proofs.Queue.Independence
import Moderation.Proofs.Session.Errand
import Moderation.Proofs.Session.Shift
import Moderation.Proofs.Session.Office
import Moderation.Proofs.Replay
import Moderation.Proofs.Session.Release
import Moderation.Proofs.Session.Amid
import Moderation.Proofs.Session.Direct
import Moderation.Proofs.Session.Entitled
import Moderation.Proofs.Session.Undone
import Moderation.Proofs.Text.Blank
import Moderation.Proofs.EventStream.Framing
import Moderation.Proofs.EventStream.Grammar
import Moderation.Proofs.Wire.RoundTrip
import Moderation.Proofs.Http.Identity
import Moderation.Proofs.Edit.Merge
import Moderation.Proofs.Queue.Editing
import Moderation.Proofs.Config.Build
import Moderation.Proofs.Wire.Config
import Moderation.Proofs.Config.Saved
import Moderation.Proofs.Session.Setup
import Moderation.Proofs.Listener
import Moderation.Proofs.Payload
import Moderation.Proofs.Session.Payload
import Moderation.Proofs.Queue.Growth
import Moderation.Proofs.Session.Scope
import Moderation.Proofs.Session.Permission
import Moderation.Proofs.Session.Unclaimed
import Moderation.Proofs.Wire.Script
import Moderation.Proofs.Rehearsal
