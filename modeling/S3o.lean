import S3o.Lts.Run
import S3o.Lts.Log
import S3o.Lts.Shuffle
import S3o.Lts.Board
import S3o.Lts.Family
import S3o.Lts.Descent
import S3o.Lts.Atomic
import S3o.Lts.Refine
import S3o.Async.Semaphore
import S3o.Async.Prog
import S3o.Async.History
import S3o.Async.Stream
import S3o.Async.Monitor
import S3o.Async.Trace
import S3o.Async.Next
import S3o.Async.Descent
import S3o.Async.Ends
import S3o.Async.Balance
import S3o.Async.Questions
import S3o.Binary64
import S3o.Error
import S3o.Types
import S3o.Config
import S3o.Validation
import S3o.Metrics
import S3o.Pool.Model
import S3o.Pool.Conserve
import S3o.Pool.Queue
import S3o.Pool.Gauges
import S3o.Interview.Pool
import S3o.Interview.Refinement
import S3o.Build
import S3o.Client
import S3o.Operations
import S3o.Rules
import S3o.Scopes
import S3o.Results
import S3o.Pieces
import S3o.Intervals
import S3o.System.Model
import S3o.System.Permits
import S3o.System.Discipline
import S3o.System.History
import S3o.System.Advance
import S3o.System.Budget
import S3o.System.Isolation
import S3o.System.Watch
import S3o.System.Accounting
import S3o.System.Latency
import S3o.System.Limits
import S3o.System.Cleanup
import S3o.System.Pairing
import S3o.System.Progress
import S3o.System.Drain
import S3o.System.Return
import S3o.System.Served
import S3o.Wire.Messages
import S3o.Wire.Exchange
import S3o.Wire.Upload
import S3o.Wire.Order
import S3o.Wire.Parts
import S3o.Wire.Manifest
import S3o.Wire.Transfers
import S3o.Wire.Ranges
import S3o.Wire.Download
import S3o.Wire.Records
import S3o.Wire.Listing
import S3o.Wire.Bucket
import S3o.Wire.Scan
import S3o.Wire.Timeouts
import S3o.Wire.FirstByte
import S3o.Service.Store
import S3o.Service.World
import S3o.Service.Script
import S3o.Service.Ledger
import S3o.Service.Write
import S3o.Service.Read
import S3o.Service.RoundTrip
import S3o.Service.Outline
import S3o.Service.Atomic
import S3o.Service.Uploads
import S3o.Service.Orphans
import S3o.System.Rest
import S3o.System.Faults
import S3o.System.Traffic
