import S4.Lib.KeyMap
import S4.Lib.Reach
import S4.Lib.Word
import S4.Managed.Types
import S4.Managed.Repairs
import S4.Managed.Repository
import S4.Managed.Calls
import S4.Managed.Effects
import S4.Managed.Rows
import S4.Managed.Cleanup
import S4.Managed.Replacement
import S4.Managed.Accounts
import S4.Managed.Usage
import S4.Managed.Versions
import S4.Lib.Agents
import S4.Managed.LogicalSink
import S4.Transaction.Journal
import S4.Transaction.Sink
import S4.Transaction.Reconciler
import S4.Transaction.Rules
import S4.Managed.Cursors
import S4.Lib.Leases
import S4.Managed.Frames
import S4.Managed.Leases
import S4.Managed.Books
import S4.Managed.Purge
import S4.Lib.Splitter
import S4.Records.Decoder
import S4.Records.Splitters
import S4.Records.Refinement
import S4.Records.Framing
import S4.Records.Output
import S4.Integrity.Checksums
import S4.Lib.Transducer
import S4.Integrity.Chunked
import S4.Integrity.Splits
import S4.Integrity.Soundness
import S4.Staging.Repository
import S4.Staging.Calls
import S4.Staging.Completion
import S4.Staging.Quota
import S4.Staging.Cleanup
import S4.Staging.Durability
import S4.Transaction.History
import S4.Transaction.Exclusion
import S4.Sinks.Local
import S4.Sinks.CommitState
import S4.Transaction.Recorded
import S4.Lib.Stages
import S4.Pipeline.Session
import S4.Pipeline.Composition
import S4.Filters.Pii
import S4.Filters.Tokens
import S4.Filters.Replacement
import S4.Filters.Combined
import S4.Filters.Reading
import S4.Filters.Neighbours
import S4.Lib.Stretches
import S4.Filters.Pieces
import S4.Filters.Stability
import S4.Filters.CsvShape
import S4.Lib.Json
import S4.Filters.JsonShape
import S4.Filters.Envelope
import S4.Records.Segments
import S4.Pipeline.Documents
import S4.Records.Reassembly
import S4.Pipeline.Limits
import S4.Records.Memory
import S4.Staging.Failures
import S4.Integrity.Completeness
import S4.Lib.Frames
import S4.Staging.Artifacts
import S4.Staging.ReadBack
import S4.Staging.Assembly
import S4.Staging.Contents
import S4.Lib.Recency
import S4.Plugins.Registry
import S4.Plugins.Cache
import S4.Plugins.Capabilities
import S4.Reads.Spool
import S4.Reads.Replay
import S4.Transaction.Postgres
import S4.Transaction.S3Backend
import S4.Managed.Retries
import S4.Avro.Times
import S4.Endpoints.Policy
import S4.Runtime.Fuel
import S4.SigV4.PercentDecode
