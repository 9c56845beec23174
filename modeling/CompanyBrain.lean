import CompanyBrain.Acl.PostgresGrantStore
import CompanyBrain.Runs.StoreAgreement
import CompanyBrain.Runs.ForcedRelease
import CompanyBrain.Policy.WrappedPayloads
import CompanyBrain.Auth.ReplayProtection
import CompanyBrain.Sessions.SessionLogs
import CompanyBrain.Harness.ToolPairs
import CompanyBrain.Harness.TapeNoninterference
import CompanyBrain.Cron.Unclaim
import CompanyBrain.Cron.WorkerRuns
import CompanyBrain.Triggers.Consent
import CompanyBrain.Idempotency.IdempotencyRuns
import CompanyBrain.Board.TaskHistory
import CompanyBrain.Board.HumanTouched
import CompanyBrain.Board.Restoration
import CompanyBrain.Board.Search
import CompanyBrain.Board.CodeRedemption
import CompanyBrain.Resolution.PolicyRefresh
import CompanyBrain.Resolution.SoulVersions
import CompanyBrain.Projects.Roster
import CompanyBrain.Skills.ReviewGate
import CompanyBrain.Delivery.PostgresHandOuts
import CompanyBrain.Credentials.ServiceVersions
import CompanyBrain.Credentials.AskResolution
import CompanyBrain.Credentials.GrantUse
import CompanyBrain.Credentials.Removals
import CompanyBrain.Credentials.ConnectorTokens
import CompanyBrain.Credentials.UseScript
import CompanyBrain.Portal.ReturnTo
import CompanyBrain.Util.ScopeStorageKey
import CompanyBrain.Harness.ReplayPreamble
import CompanyBrain.Resolution.ScopeMembership
import CompanyBrain.SurfaceCache.MessageMerge
import CompanyBrain.Deploy.VersionHistory
import CompanyBrain.Deploy.DeploymentNames
import CompanyBrain.Harness.FoldLint
import CompanyBrain.Runs.ParkPrediction
import CompanyBrain.Runs.SessionOrder
import CompanyBrain.Util.RepetitionNesting
import CompanyBrain.Runs.TurnStream
import CompanyBrain.Runs.SignalPoll
import CompanyBrain.Persistence.SnapshotCache
import CompanyBrain.Harness.SummaryTaint
import CompanyBrain.Slack.PostVerify
import CompanyBrain.Deploy.IdleReaper
import CompanyBrain.Credentials.TokenAvailability
import CompanyBrain.Sessions.TranscriptWindow
import CompanyBrain.Sessions.TurnCounters
import CompanyBrain.Files.ArtifactPages
import CompanyBrain.Harness.PriorTurns
import CompanyBrain.Egress.RelayAudit
import CompanyBrain.Memory.RevisionCheck
import CompanyBrain.Directory.SamePerson
