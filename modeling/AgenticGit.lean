import AgenticGit.CodeIntelligence.WarmIndex
import AgenticGit.CodeIntelligence.PersistedIndex
import AgenticGit.CodeIntelligence.BraceRanges
import AgenticGit.Collab.Wire
import AgenticGit.Collab.Convergence
import AgenticGit.Gateway.HubLimit
import AgenticGit.Gateway.HubSaves
import AgenticGit.Persistence.AuditChain
import AgenticGit.Persistence.SqliteTurns
import AgenticGit.Persistence.ChannelPages
import AgenticGit.Persistence.Conversations
import AgenticGit.Coordinator.AdmissionClaims
import AgenticGit.Coordinator.AdmissionAdvice
import AgenticGit.Coordinator.OwnershipGrants
import AgenticGit.Coordinator.Symmetry
import AgenticGit.Coordinator.MoreClaimed
import AgenticGit.Cli.CrashRecovery
import AgenticGit.Coordinator.SkippedReplans
import AgenticGit.Coordinator.Teardown
import AgenticGit.Coordinator.GivenBack
import AgenticGit.Coordinator.ScopeWaits
import AgenticGit.Coordinator.Expansion
import AgenticGit.Cli.StrandedSweep
import AgenticGit.Cli.StoppedRuns
import AgenticGit.Cli.RunSettlement
import AgenticGit.Coordinator.Division
import AgenticGit.Integration.Validated
import AgenticGit.Cli.RemoteHolders
import AgenticGit.Workspace.MirrorLock
import AgenticGit.Cli.RepositoryClaim
import AgenticGit.Cli.ConcurrentContracts
import AgenticGit.Coordinator.OpenConversations
import AgenticGit.Gateway.FrameMessages
import AgenticGit.Repository.ZipExtract
import AgenticGit.Repository.BatchReader
import AgenticGit.Coordinator.TaskDecomposition
import AgenticGit.Coordinator.HandoffStore
import AgenticGit.Workspace.ScrubResidue
import AgenticGit.Workspace.ObservedRanges
import AgenticGit.Workspace.WarmPool
import AgenticGit.Repository.RemoteSync
import AgenticGit.Gateway.AuditStream
import AgenticGit.Web.ControlPlaneLock
