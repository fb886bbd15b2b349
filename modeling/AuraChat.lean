import AuraChat.Lib.Program
import AuraChat.Lib.Rely
import AuraChat.Lib.Reach
import AuraChat.Lib.Settle
import AuraChat.Lib.WorkQueue
import AuraChat.Lib.Sequence
import AuraChat.Lib.Lists
import AuraChat.Lib.Decoder
import AuraChat.Lib.Json
import AuraChat.Lib.JsonText
import AuraChat.Lib.Scan
import AuraChat.Lib.Lexer
import AuraChat.Model.Protocol
import AuraChat.Model.Store
import AuraChat.Model.Business
import AuraChat.Model.Stream
import AuraChat.Model.Net
import AuraChat.Model.Server
import AuraChat.Model.Framing
import AuraChat.Model.Client
import AuraChat.Model.ChatLoop
import AuraChat.Model.Files
import AuraChat.Model.Tables
import AuraChat.Model.Mysql
import AuraChat.Model.Queries
import AuraChat.Model.Host
import AuraChat.Model.Timer
import AuraChat.Model.Loop
import AuraChat.Model.EventLoop
import AuraChat.Model.Writer
import AuraChat.Model.Shutdown
import AuraChat.Model.ThreadPool
import AuraChat.Model.Sample
import AuraChat.Server.WellFormed
import AuraChat.Server.Lifecycle
import AuraChat.Server.Steps
import AuraChat.Server.Moves
import AuraChat.Server.Guards
import AuraChat.Server.Trace
import AuraChat.Server.Backed
import AuraChat.Server.Submits
import AuraChat.Server.Identity
import AuraChat.Server.Messages
import AuraChat.Server.Footprint
import AuraChat.Server.Timers
import AuraChat.Safety.Authentication
import AuraChat.Safety.Provenance
import AuraChat.Safety.Facts
import AuraChat.Safety.Isolation
import AuraChat.Safety.Sessions
import AuraChat.Safety.SingleSession
import AuraChat.Safety.Kick
import AuraChat.Safety.Delivery
import AuraChat.Safety.Order
import AuraChat.Safety.Requests
import AuraChat.Safety.Slots
import AuraChat.Safety.Clients
import AuraChat.Safety.Replies
import AuraChat.Safety.Offline
import AuraChat.Safety.Once
import AuraChat.Safety.Answers
import AuraChat.Safety.Contexts
import AuraChat.Safety.Conservation
import AuraChat.Safety.Carried
import AuraChat.Safety.Service
import AuraChat.Safety.Conclusion
import AuraChat.Safety.Settling
import AuraChat.Safety.Shutdown
import AuraChat.Safety.ThreadPool
import AuraChat.Safety.Access
import AuraChat.Safety.Heartbeats
import AuraChat.Safety.RateLimit
import AuraChat.Safety.TimerContract
import AuraChat.Safety.SleepTime
import AuraChat.Safety.LoopOrder
import AuraChat.Wire.Packets
import AuraChat.Wire.Framing
import AuraChat.Wire.Reference
import AuraChat.Wire.Events
import AuraChat.Wire.Closing
import AuraChat.Wire.Pipe
import AuraChat.Wire.Delivery
import AuraChat.Wire.EndToEnd
import AuraChat.Wire.Intake
import AuraChat.Wire.Progress
import AuraChat.Wire.Gaps
import AuraChat.Client.Stream
import AuraChat.Client.Sending
import AuraChat.Client.Auth
import AuraChat.Client.Commands
import AuraChat.Client.Console
import AuraChat.Llama.Chunks
import AuraChat.Llama.Lines
import AuraChat.Llama.Callbacks
import AuraChat.Llama.Body
import AuraChat.Storage.Rows
import AuraChat.Storage.Operations
import AuraChat.Storage.Friends
import AuraChat.Storage.Backends
import AuraChat.Storage.Accept
import AuraChat.Storage.Handle
import AuraChat.Storage.Files
import AuraChat.Storage.Persistence
import AuraChat.Storage.Crash
import AuraChat.Storage.Restarts
import AuraChat.Storage.Requests
import AuraChat.Storage.Accounts
import AuraChat.Storage.Search
import AuraChat.Storage.Queries
import AuraChat.Storage.Community
import AuraChat.Storage.History
import AuraChat.Storage.Content
import AuraChat.Storage.Writer
