import VkService.Effects.Interleaving
import VkService.Effects.Weakest
import VkService.Effects.Coupled
import VkService.Effects.Passing
import VkService.Storage.RowStore
import VkService.Storage.Keyed
import VkService.Storage.CellSteps
import VkService.Storage.UniqueIndex
import VkService.Storage.LockOrder
import VkService.Storage.Appended
import VkService.Storage.Dependents
import VkService.Limits.SlidingWindow
import VkService.Limits.Retry
import VkService.Effects.Program
import VkService.Text.PythonStr
import VkService.Text.UnicodeCase
import VkService.Text.UuidText
import VkService.Configuration.GroupId
import VkService.Configuration.Sanitize
import VkService.Domain.Records
import VkService.Domain.Repositories
import VkService.Domain.Calls
import VkService.Domain.Services
import VkService.Domain.Columns
import VkService.Domain.Handlers
import VkService.Domain.Schema
import VkService.Domain.Changes
import VkService.Domain.Constraints
import VkService.Promises.SessionRules
import VkService.Promises.Confirm
import VkService.Promises.Delivery
import VkService.Promises.Requests
import VkService.Promises.Ensure
import VkService.Promises.Messages
import VkService.Promises.Locks
import VkService.Promises.Reports
import VkService.Sequential.Session
import VkService.Sequential.Replies
import VkService.Sequential.ConfirmRun
import VkService.Sequential.Operations
import VkService.Sequential.Consistency
import VkService.Sequential.RateLimit
import VkService.Sequential.PeerIsolation
import VkService.Sequential.Links
import VkService.Sequential.Idempotence
import VkService.Sequential.Frame
import VkService.Sequential.Journal
import VkService.Sequential.Secrecy
import VkService.Sequential.DeliveryRun
import VkService.Sequential.EndToEnd
import VkService.Sequential.Messages
import VkService.Sequential.Pairs
import VkService.Sequential.Columns
import VkService.Sequential.ColumnRuns
import VkService.Sequential.Redelivery
import VkService.Sequential.RowByRow
import VkService.Sequential.Recipients
import VkService.Sequential.Faults
import VkService.Sequential.Announcements
import VkService.Messaging.Commands
import VkService.Messaging.Consumer
import VkService.Messaging.Lifecycle
import VkService.Messaging.SendCommand
import VkService.Concurrent.Database
import VkService.Concurrent.Steps
import VkService.Concurrent.Ownership
import VkService.Concurrent.Cells
import VkService.Concurrent.Sessions
import VkService.Concurrent.Codes
import VkService.Concurrent.Views
import VkService.Concurrent.Finality
import VkService.Concurrent.Provenance
import VkService.Concurrent.SingleUse
import VkService.Concurrent.GetOrCreate
import VkService.Concurrent.Ledger
import VkService.Concurrent.Deadlock
import VkService.Concurrent.HandlerLocks
import VkService.Concurrent.Answers
import VkService.Concurrent.Reports
import VkService.Concurrent.Attempts
import VkService.Concurrent.UsableCodes
import VkService.Concurrent.UsedUp
import VkService.Text.Separated
import VkService.Storage.Claims
import VkService.Sequential.Lifecycle
import VkService.Api.Endpoints
import VkService.Api.Responses
import VkService.Messaging.Client
import VkService.Messaging.Registration
import VkService.Messaging.ClientRuns
import VkService.Messaging.Lifespan
import VkService.Concurrent.Evolution
import VkService.Promises.Entries
import VkService.Concurrent.CommittedJournal
import VkService.Concurrent.RowLocks
import VkService.Concurrent.Progress
import VkService.Bot.Runtime
import VkService.Smoke.Config
import VkService.Smoke.Evidence
