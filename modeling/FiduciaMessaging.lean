import FiduciaMessaging.Error
import FiduciaMessaging.Foundations.RowSet
import FiduciaMessaging.Foundations.Runs
import FiduciaMessaging.Envelope
import FiduciaMessaging.Outbox.Record
import FiduciaMessaging.Outbox.Statements
import FiduciaMessaging.Outbox.Effects
import FiduciaMessaging.Outbox.Relay
import FiduciaMessaging.Outbox.Steps
import FiduciaMessaging.Outbox.Invariants
import FiduciaMessaging.Foundations.Handoff
import FiduciaMessaging.Outbox.Delivery
import FiduciaMessaging.Foundations.Lease
import FiduciaMessaging.Outbox.Leases
import FiduciaMessaging.Outbox.Window
import FiduciaMessaging.Outbox.Ledger
import FiduciaMessaging.Outbox.Attempts
import FiduciaMessaging.Outbox.Retries
import FiduciaMessaging.Outbox.DeadLetter
import FiduciaMessaging.Foundations.Transactions
import FiduciaMessaging.Inbox.Claims
import FiduciaMessaging.Inbox.Steps
import FiduciaMessaging.Inbox.Suppression
import FiduciaMessaging.Inbox.EndToEnd
import FiduciaMessaging.Foundations.Noninterference
import FiduciaMessaging.Inbox.Message
import FiduciaMessaging.Foundations.Scanner
import FiduciaMessaging.Connect.IpAddr
import FiduciaMessaging.Connect.Policy
import FiduciaMessaging.Connect.Authority
import FiduciaMessaging.Outbox.Operations
import FiduciaMessaging.Outbox.Terminal
import FiduciaMessaging.Outbox.Release
import FiduciaMessaging.Outbox.Drainers
import FiduciaMessaging.Foundations.PrefixCode
import FiduciaMessaging.Outbox.Dedup
import FiduciaMessaging.Outbox.Enqueue
import FiduciaMessaging.Foundations.Decimal
import FiduciaMessaging.Foundations.Topics
import FiduciaMessaging.Outbox.DoublePublish
import FiduciaMessaging.Subjects.Grammar
import FiduciaMessaging.Subjects.Wildcards
import FiduciaMessaging.Codec.Json
import FiduciaMessaging.Foundations.KeyedRecord
import FiduciaMessaging.Codec.Derive
import FiduciaMessaging.Codec.RoundTrip
import FiduciaMessaging.Codec.Staging
import FiduciaMessaging.Foundations.Recency
import FiduciaMessaging.Foundations.FirstWrite
import FiduciaMessaging.Inbox.Memory
import FiduciaMessaging.Outbox.Replay
import FiduciaMessaging.Compat.Guard
import FiduciaMessaging.Outbox.AttemptRange
import FiduciaMessaging.Compat.Publisher
import FiduciaMessaging.Compat.Batch
import FiduciaMessaging.Outbox.LostLeases
import FiduciaMessaging.Foundations.Drafts
import FiduciaMessaging.Outbox.Outage
import FiduciaMessaging.Outbox.Atomicity
import FiduciaMessaging.Outbox.Progress
import FiduciaMessaging.Inbox.Retention
import FiduciaMessaging.Compat.Serial
import FiduciaMessaging.Compat.Once
import FiduciaMessaging.Inbox.Reclaim
import FiduciaMessaging.Deploy.FailClosed
import FiduciaMessaging.Deploy.Shutdown
import FiduciaMessaging.Compat.Delivery
import FiduciaMessaging.Codec.Delivery
import FiduciaMessaging.Deploy.Retention
import FiduciaMessaging.Outbox.Uninterrupted
