import GrpcGw.Fallible
import GrpcGw.Pattern.Covers
import GrpcGw.Pattern.FirstMatch
import GrpcGw.Pattern.Reorder
import GrpcGw.Pattern.Slots
import GrpcGw.Reflect.Descriptor
import GrpcGw.Reflect.Laws
import GrpcGw.Reflect.Message
import GrpcGw.Routes.Table
import GrpcGw.Rules.Annotations
import GrpcGw.Rules.Http
import GrpcGw.Service.BodyField
import GrpcGw.Service.Build
import GrpcGw.Service.Check
import GrpcGw.Service.Clients
import GrpcGw.Service.Concurrent
import GrpcGw.Service.Conflicts
import GrpcGw.Service.Declared
import GrpcGw.Service.Handle
import GrpcGw.Service.Headers
import GrpcGw.Service.Mixed
import GrpcGw.Service.Order
import GrpcGw.Service.Parameters
import GrpcGw.Service.Precedence
import GrpcGw.Service.Proxy
import GrpcGw.Service.Query
import GrpcGw.Service.QueryOrder
import GrpcGw.Service.QueryString
import GrpcGw.Service.Request
import GrpcGw.Service.Routing
import GrpcGw.Service.Schema
import GrpcGw.Service.Sending
import GrpcGw.Service.Shadowing
import GrpcGw.Service.Spelling
import GrpcGw.Service.Status
import GrpcGw.Service.Strict
import GrpcGw.Service.Totality
import GrpcGw.Service.Traffic
import GrpcGw.Service.Typing
import GrpcGw.Service.Unbound
import GrpcGw.System.Mailbox
import GrpcGw.System.Remote
import GrpcGw.System.Run
import GrpcGw.Template.Basic
import GrpcGw.Template.Captures
import GrpcGw.Template.Checked
import GrpcGw.Template.Escaping
import GrpcGw.Template.Grammar
import GrpcGw.Template.Language
import GrpcGw.Template.Parser
import GrpcGw.Template.Reachable
import GrpcGw.Template.Rendering
import GrpcGw.Template.Requests
import GrpcGw.Template.RoundTrip
import GrpcGw.Template.Values
import GrpcGw.Template.WellFormed
import GrpcGw.Text.Decimal
import GrpcGw.Text.Form
import GrpcGw.Text.Number
import GrpcGw.Text.Percent
import GrpcGw.Text.Slices
import GrpcGw.Text.Strings
import GrpcGw.Transcode.Bind
import GrpcGw.Transcode.BindLaws
import GrpcGw.Transcode.Commute
import GrpcGw.Transcode.Json
import GrpcGw.Transcode.Leaves
import GrpcGw.Transcode.Narrowing
import GrpcGw.Transcode.Scalars
import GrpcGw.Transcode.Spare
import GrpcGw.Transcode.Update
import GrpcGw.Transcode.View
import GrpcGw.Transcode.Writes
import GrpcGw.Util.InProcess
