import BankPlatform.Library.Interleaving
import BankPlatform.Library.Exhaustion
import BankPlatform.Library.History
import BankPlatform.Library.Table
import BankPlatform.Library.RowLocks
import BankPlatform.Library.JsNumber
import BankPlatform.Library.JsRecord
import BankPlatform.Library.JsonRef
import BankPlatform.Library.JsMap
import BankPlatform.Library.IsoDate
import BankPlatform.Library.Json
import BankPlatform.Library.BigEndian
import BankPlatform.Library.Numeral
import BankPlatform.Library.Reader
import BankPlatform.Library.Recognizer
import BankPlatform.Library.Reassembly
import BankPlatform.Library.Session
import BankPlatform.Library.Transaction
import BankPlatform.Library.Interference
import BankPlatform.Library.Hosting
import BankPlatform.Library.Serial
import BankPlatform.Library.Serving
import BankPlatform.Library.Turns
import BankPlatform.Library.StopAndWait
import BankPlatform.Library.Outbox
import BankPlatform.Library.FirstWins
import BankPlatform.Library.ChangeDetector
import BankPlatform.Library.EdgeTrigger
import BankPlatform.Library.NumberValue
import BankPlatform.Library.Keyset
import BankPlatform.Library.Transducer
import BankPlatform.Library.ShiftRegister
import BankPlatform.Bank.Values
import BankPlatform.Bank.Schema
import BankPlatform.Bank.Queue
import BankPlatform.Bank.System
import BankPlatform.Bank.Execute
import BankPlatform.Bank.Locking
import BankPlatform.Bank.Conservation
import BankPlatform.Bank.Delivery
import BankPlatform.Bank.AccountHistory
import BankPlatform.Bank.Balances
import BankPlatform.Bank.Ledger
import BankPlatform.Bank.Freeze
import BankPlatform.Bank.Deadlock
import BankPlatform.Bank.Progress
import BankPlatform.Bank.Serial
import BankPlatform.Bank.Atomic
import BankPlatform.Bank.Idempotency
import BankPlatform.Bank.Spelling
import BankPlatform.Bank.Stranding
import BankPlatform.Auth.Service
import BankPlatform.Auth.Promises
import BankPlatform.Auth.Access
import BankPlatform.Teltonika.Cursor
import BankPlatform.Teltonika.Avl
import BankPlatform.Teltonika.Bounds
import BankPlatform.Teltonika.Normalize
import BankPlatform.Teltonika.Framer
import BankPlatform.Teltonika.Encode
import BankPlatform.Teltonika.RoundTrip
import BankPlatform.Teltonika.Stream
import BankPlatform.Teltonika.Grammar
import BankPlatform.Teltonika.Checksum
import BankPlatform.Teltonika.Handshake
import BankPlatform.Teltonika.Memory
import BankPlatform.Teltonika.Reporting
import BankPlatform.OpenApi.Document
import BankPlatform.OpenApi.Merge
import BankPlatform.OpenApi.Sections
import BankPlatform.OpenApi.Extras
import BankPlatform.OpenApi.Meaning
import BankPlatform.Telemetry.Event
import BankPlatform.Telemetry.Build
import BankPlatform.Telemetry.Store
import BankPlatform.Telemetry.Vehicles
import BankPlatform.Telemetry.Writers
import BankPlatform.Telemetry.Engine
import BankPlatform.Telemetry.EngineCalls
import BankPlatform.Telemetry.Storable
import BankPlatform.Telemetry.Rules
import BankPlatform.Telemetry.RuleExtremes
import BankPlatform.Telemetry.Alerting
import BankPlatform.Telemetry.EdgeTriggered
import BankPlatform.Telemetry.AlertBatch
import BankPlatform.Telemetry.AlertRuns
import BankPlatform.Telemetry.Redelivery
import BankPlatform.Telemetry.EngineRuns
import BankPlatform.Telemetry.EngineHistory
import BankPlatform.Telemetry.Backlog
import BankPlatform.Telemetry.Sharing
import BankPlatform.Telemetry.Convergence
import BankPlatform.Telemetry.Ingest
import BankPlatform.Telemetry.Answers
import BankPlatform.Telemetry.Device
import BankPlatform.Telemetry.Uplink
import BankPlatform.Telemetry.Flush
import BankPlatform.Telemetry.Consumer
import BankPlatform.Telemetry.Publish
import BankPlatform.Telemetry.Registration
import BankPlatform.Telemetry.Replicas
import BankPlatform.Telemetry.EndToEnd
