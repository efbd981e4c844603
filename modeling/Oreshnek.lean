import Oreshnek.Lib.Search
import Oreshnek.Lib.Regroup
import Oreshnek.Lib.Custody
import Oreshnek.Lib.Ledger
import Oreshnek.Lib.Slices
import Oreshnek.Lib.Quoted
import Oreshnek.Lib.Escape
import Oreshnek.Lib.Refill
import Oreshnek.Lib.Pieces
import Oreshnek.Lib.Frames
import Oreshnek.Lib.Rotation
import Oreshnek.Base
import Oreshnek.Http.Request
import Oreshnek.Http.Parser
import Oreshnek.Http.Chunked
import Oreshnek.Http.Phases
import Oreshnek.Http.Lines
import Oreshnek.Http.Owned
import Oreshnek.Http.Framing
import Oreshnek.Http.Recasing
import Oreshnek.Http.Query
import Oreshnek.Http.ContentLength
import Oreshnek.Http.Wire
import Oreshnek.Http.ChunkPasses
import Oreshnek.Http.ChunkGrammar
import Oreshnek.Http.ChunkSizes
import Oreshnek.Net.Inbound
import Oreshnek.Http.Storage
import Oreshnek.Http.Copies
import Oreshnek.Net.Handover
import Oreshnek.Net.Segmentation
import Oreshnek.Net.RoundTrip
import Oreshnek.Net.Grammar
import Oreshnek.Server.Router
import Oreshnek.Server.Routes
import Oreshnek.Server.Routing
import Oreshnek.Server.Overrun
import Oreshnek.Server.ParamNames
import Oreshnek.Http.Response
import Oreshnek.Http.Dates
import Oreshnek.Http.HeaderText
import Oreshnek.Http.Multipart
import Oreshnek.Http.Disposition
import Oreshnek.Http.Segments
import Oreshnek.Http.FormData
import Oreshnek.Http.Truncation
import Oreshnek.Server.Semantics
import Oreshnek.Server.Worker
import Oreshnek.Server.Lengths
import Oreshnek.Server.Ranges
import Oreshnek.Server.Validators
import Oreshnek.Server.Negotiation
import Oreshnek.Server.Compression
import Oreshnek.Server.Protection
import Oreshnek.Lib.Runs
import Oreshnek.Net.Connection
import Oreshnek.Net.Sending
import Oreshnek.Net.Delivery
import Oreshnek.Net.Progress
import Oreshnek.Server.Session
import Oreshnek.Server.Callbacks
import Oreshnek.Server.EventLoop
import Oreshnek.Server.Modes
import Oreshnek.Server.Moves
import Oreshnek.Server.Backlog
import Oreshnek.Server.Drain
import Oreshnek.Server.Answers
import Oreshnek.Server.Accounting
import Oreshnek.Server.Heads
import Oreshnek.Server.Interim
import Oreshnek.Server.Clocks
import Oreshnek.Server.Deadlines
import Oreshnek.Server.Stalls
import Oreshnek.Server.ThreadPool
import Oreshnek.Server.RateLimiter
import Oreshnek.Platform.Base64Url
import Oreshnek.Platform.Accumulators
import Oreshnek.Platform.Jwt
import Oreshnek.Platform.Passwords
import Oreshnek.Platform.Pool
import Oreshnek.Platform.PoolOpening
import Oreshnek.Platform.SqliteBackend
import Oreshnek.Platform.Placeholders
import Oreshnek.Platform.PgParameters
import Oreshnek.Platform.Conninfo
import Oreshnek.Server.Mirror
import Oreshnek.Server.Persistence
import Oreshnek.Server.Arming
import Oreshnek.Server.Tls
import Oreshnek.Server.Descriptors
import Oreshnek.Utils.Logger
import Oreshnek.Utils.Rotation
import Oreshnek.Utils.Sinks
import Oreshnek.Http.Calendar
import Oreshnek.Server.Revalidation
import Oreshnek.Server.Histogram
import Oreshnek.Server.Exposition
import Oreshnek.Server.Transcript
import Oreshnek.Server.Words
import Oreshnek.Server.Stream
import Oreshnek.Server.Shutdown
import Oreshnek.Server.Counters
import Oreshnek.Server.Admission
import Oreshnek.Server.Registration
import Oreshnek.Server.Download
import Oreshnek.Server.Client
