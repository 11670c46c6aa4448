import ContributorGateway.Collaboration.TornWrites
import ContributorGateway.Core.CitedLines
import ContributorGateway.Core.ClaimCapacity
import ContributorGateway.Core.ClaimCompaction
import ContributorGateway.Core.ClaimHandover
import ContributorGateway.Core.ClaimRetries
import ContributorGateway.Core.ClaimRuns
import ContributorGateway.Core.ClaimableTasks
import ContributorGateway.Core.ContextAssembly
import ContributorGateway.Core.CorpusDigest
import ContributorGateway.Core.FourccQuarantine
import ContributorGateway.Core.JobOrder
import ContributorGateway.Core.OpenPrFiles
import ContributorGateway.Core.OpenPrReplay
import ContributorGateway.Core.OpenPrSecrecy
import ContributorGateway.Core.OpenPrTrailer
import ContributorGateway.Core.OpenPrWrites
import ContributorGateway.Core.PathGrammar
import ContributorGateway.Core.ProjectContext
import ContributorGateway.Core.QaStatus
import ContributorGateway.Core.RipgrepEvents
import ContributorGateway.Core.SearchEngines
import ContributorGateway.Core.SearchResults
import ContributorGateway.Core.StaleBranches
import ContributorGateway.Core.SymbolIndex
import ContributorGateway.Core.SymbolLookups
import ContributorGateway.Core.TaskLists
import ContributorGateway.Deploy.ExportSnapshot
import ContributorGateway.Deploy.ManifestFile
import ContributorGateway.Deploy.ServedSnapshot
import ContributorGateway.Deploy.SnapshotRefresh
import ContributorGateway.Deploy.SnapshotRetention
import ContributorGateway.GatewayRepo.GatewayContent
import ContributorGateway.GatewayRepo.GatewayIds
import ContributorGateway.Mcp.CheckRate
import ContributorGateway.Mcp.ClientRegistry
import ContributorGateway.Mcp.CollaboratorChecks
import ContributorGateway.Mcp.DeviceGateway
import ContributorGateway.Mcp.DeviceTokens
import ContributorGateway.Mcp.EnrollmentRuns
import ContributorGateway.Mcp.RegistryFailures
import ContributorGateway.Settings.RedirectPatterns
