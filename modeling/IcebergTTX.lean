import IcebergTTX.System.Sequential
import IcebergTTX.Properties.Release
import IcebergTTX.Properties.Resolution
import IcebergTTX.Properties.PauseClock
import IcebergTTX.Properties.History
import IcebergTTX.Properties.Launch
import IcebergTTX.Properties.Cursor
import IcebergTTX.Properties.ActiveWrites
import IcebergTTX.Properties.Deliveries
import IcebergTTX.Properties.Roster
import IcebergTTX.Properties.Snapshot
import IcebergTTX.Properties.EventBuffer
import IcebergTTX.Properties.Projection
import IcebergTTX.Properties.LiveFrames
import IcebergTTX.Properties.ScenarioReuse
import IcebergTTX.Properties.ResponseDeadlock
import IcebergTTX.Properties.Redemption
import IcebergTTX.Properties.Reviews
import IcebergTTX.Properties.SocketGroups
import IcebergTTX.Properties.StaleSockets
import IcebergTTX.Properties.ConfigCaches
import IcebergTTX.Properties.Topology
import IcebergTTX.Properties.CatchUp
import IcebergTTX.Properties.Navigation
import IcebergTTX.Properties.SnapshotOrder
import IcebergTTX.Properties.Inbox
import IcebergTTX.Properties.RateLimit
import IcebergTTX.Properties.RunningClock
import IcebergTTX.Properties.DeliveryClock
import IcebergTTX.Properties.Rearming
import IcebergTTX.Properties.Renaming
import IcebergTTX.Properties.BuilderRoundTrip
import IcebergTTX.Properties.BuilderValidation
import IcebergTTX.Properties.RetryAfter
import IcebergTTX.Properties.Suggestions
import IcebergTTX.Properties.Provisioning
import IcebergTTX.Properties.FrozenDefinition
import IcebergTTX.Properties.Invites
import IcebergTTX.Properties.Export
import IcebergTTX.Properties.Timeline
import IcebergTTX.Properties.Revocation
import IcebergTTX.Properties.Assessments
import IcebergTTX.Properties.Attachments
import IcebergTTX.Properties.Reconciliation
import IcebergTTX.Properties.Retention
import IcebergTTX.Properties.SinkPinning
import IcebergTTX.Properties.Proxy
import IcebergTTX.Properties.CsvExport
import IcebergTTX.Properties.Report
import IcebergTTX.Properties.AuditTrail
import IcebergTTX.Properties.Privileges
import IcebergTTX.Properties.Editing
import IcebergTTX.Properties.Isolation
import IcebergTTX.Properties.FanOut
import IcebergTTX.Properties.ScenarioDocuments
