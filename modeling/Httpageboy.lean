import Httpageboy.Lib.Str
import Httpageboy.Lib.Utf8
import Httpageboy.Lib.Search
import Httpageboy.Lib.Layout
import Httpageboy.Lib.Assoc
import Httpageboy.Lib.Sorting
import Httpageboy.Lib.Yaml
import Httpageboy.Lib.Incremental
import Httpageboy.Lib.Loop
import Httpageboy.Lib.Checked
import Httpageboy.Lib.System
import Httpageboy.Lib.Arc
import Httpageboy.Lib.Writes
import Httpageboy.Core.StatusCode
import Httpageboy.Core.Message
import Httpageboy.Core.Framing
import Httpageboy.Core.Words
import Httpageboy.Core.Utils
import Httpageboy.Core.Cors
import Httpageboy.Core.CorsConfig
import Httpageboy.Core.Request
import Httpageboy.Core.Stream
import Httpageboy.Framing.Outcome
import Httpageboy.Framing.Headers
import Httpageboy.Framing.Hidden
import Httpageboy.Framing.Conservation
import Httpageboy.Framing.Grammar
import Httpageboy.Framing.Stability
import Httpageboy.Framing.Locality
import Httpageboy.Framing.Segmentation
import Httpageboy.Framing.Encoding
import Httpageboy.Framing.RoundTrip
import Httpageboy.Framing.Bounds
import Httpageboy.Framing.Faultless
import Httpageboy.Routing.Patterns
import Httpageboy.Routing.Dispatch
import Httpageboy.Routing.Order
import Httpageboy.Routing.Files
import Httpageboy.Routing.Bindings
import Httpageboy.Routing.Params
import Httpageboy.Runtime.Server
import Httpageboy.Runtime.Shared
import Httpageboy.Runtime.CloseDiscipline
import Httpageboy.Runtime.Handover
import Httpageboy.Runtime.ResponseHead
import Httpageboy.Runtime.ResponseFraming
import Httpageboy.Runtime.CrossOrigin
import Httpageboy.Runtime.Padding
import Httpageboy.Runtime.Accept
import Httpageboy.Runtime.Deadline
import Httpageboy.Runtime.Memory
import Httpageboy.Runtime.Configuration
import Httpageboy.Runtime.ThreadPool
import Httpageboy.Runtime.PoolFailure
import Httpageboy.Runtime.PoolShutdown
import Httpageboy.OpenApi.Extract
import Httpageboy.OpenApi.Annotations
import Httpageboy.OpenApi.Statements
import Httpageboy.OpenApi.Invocations
import Httpageboy.OpenApi.Completeness
import Httpageboy.OpenApi.Load
import Httpageboy.OpenApi.Emit
import Httpageboy.OpenApi.Document
import Httpageboy.OpenApi.Parameters
import Httpageboy.Runtime.Sequential
import Httpageboy.Runtime.Dialogue
import Httpageboy.Runtime.Lifetime
import Httpageboy.Framing.Limits
import Httpageboy.Runtime.Limits
import Httpageboy.Runtime.Socket
import Httpageboy.Runtime.PoolLedger
import Httpageboy.Runtime.SyncServer
import Httpageboy.Runtime.Starvation
import Httpageboy.Runtime.Statuses
import Httpageboy.Runtime.Setup
import Httpageboy.Runtime.AsyncServer
import Httpageboy.Runtime.Draining
import Httpageboy.Runtime.Browser
import Httpageboy.Runtime.Confinement
import Httpageboy.Lib.YamlReader
import Httpageboy.Lib.YamlValue
import Httpageboy.OpenApi.OneLine
import Httpageboy.OpenApi.ReadBack
import Httpageboy.OpenApi.Client
import Httpageboy.OpenApi.Application
