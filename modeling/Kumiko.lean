import Kumiko.Pipeline.RetentionGuard
import Kumiko.Pipeline.HandOff
import Kumiko.Pipeline.RetryBudget
import Kumiko.Pipeline.CascadeDelete
import Kumiko.Crypto.PgKmsAdapter
import Kumiko.Db.ListPaging
import Kumiko.Db.NoLostUpdate
import Kumiko.Ledger.SchedulePeriods
import Kumiko.Caps.HardCap
import Kumiko.Caps.Conservation
import Kumiko.Pipeline.TransitionGuard
import Kumiko.Pipeline.BatchAtomicity
import Kumiko.Auth.PasswordSessions
import Kumiko.Billing.TierSync
import Kumiko.Workflow.ResumeClaim
import Kumiko.Workflow.StepDispatch
import Kumiko.Auth.SingleUseLinks
import Kumiko.Workflow.TriggeredRuns
import Kumiko.Workflow.WakeUps
import Kumiko.Billing.ProviderEvents
import Kumiko.Workflow.PipelineResume
import Kumiko.Files.UploadLedger
import Kumiko.Files.StorageUsage
import Kumiko.EventStore.Upcaster
import Kumiko.Crypto.BlindIndex
import Kumiko.Pipeline.HookGrants
import Kumiko.EventStore.Handles
import Kumiko.Pipeline.CommitHooks
import Kumiko.Pipeline.NestedWrites
import Kumiko.Db.MigrationRunner
import Kumiko.Db.SqlStatements
import Kumiko.Toggles.ComposeTierResolver
import Kumiko.Tenant.RoleGrants
import Kumiko.Auth.RowBoundGrants
import Kumiko.RateLimit.TokenBucket
import Kumiko.Tenant.MembershipHistory
import Kumiko.EventStore.StreamTenantBackfill
import Kumiko.Ledger.Reports
import Kumiko.Config.Resolver
import Kumiko.Auth.Base32
import Kumiko.Engine.DerivedCells
import Kumiko.Jobs.JobAttempts
import Kumiko.Files.ZipEntryNames
import Kumiko.Renderer.FormController
import Kumiko.Db.DriverValues
