import Shapoclyack.Acceptances
import Shapoclyack.Advisories
import Shapoclyack.AgentGroupScopes
import Shapoclyack.ArtifactSchemas
import Shapoclyack.AssetGroupRules
import Shapoclyack.AssetGroups
import Shapoclyack.AssetMerges
import Shapoclyack.AssetRegistry
import Shapoclyack.CampaignLedger
import Shapoclyack.ClaimAccounting
import Shapoclyack.ClientIp
import Shapoclyack.ClosureInvariant
import Shapoclyack.CoverageSoundness
import Shapoclyack.CronTimes
import Shapoclyack.DeadlineInvariant
import Shapoclyack.DerivedFeed
import Shapoclyack.DetectorMemory
import Shapoclyack.Detectors
import Shapoclyack.DiscoveryBatches
import Shapoclyack.EvidenceUnions
import Shapoclyack.EvrPrinting
import Shapoclyack.FalsePositives
import Shapoclyack.FindingColumns
import Shapoclyack.FindingEvents
import Shapoclyack.FindingEvidence
import Shapoclyack.FindingFold
import Shapoclyack.FindingIdentity
import Shapoclyack.FindingMoves
import Shapoclyack.FindingProblems
import Shapoclyack.Findings
import Shapoclyack.FoldEffects
import Shapoclyack.FourEyes
import Shapoclyack.IdempotencyKeys
import Shapoclyack.IdpSync
import Shapoclyack.IngestFencing
import Shapoclyack.InventoryClosures
import Shapoclyack.JobAttempts
import Shapoclyack.JobConcurrency
import Shapoclyack.JobStates
import Shapoclyack.Jobs
import Shapoclyack.L2Routing
import Shapoclyack.L2Selection
import Shapoclyack.Library.Ascending
import Shapoclyack.Library.Blocks
import Shapoclyack.Library.BreadthFirst
import Shapoclyack.Library.Chunks
import Shapoclyack.Library.CivilCalendar
import Shapoclyack.Library.CollapsedBlocks
import Shapoclyack.Library.Erasure
import Shapoclyack.Library.Fallible
import Shapoclyack.Library.IpAddresses
import Shapoclyack.Library.IpNetworks
import Shapoclyack.Library.KeyedTable
import Shapoclyack.Library.KeysetSweep
import Shapoclyack.Library.Lookups
import Shapoclyack.Library.PaddedOrder
import Shapoclyack.Library.ReadCommitted
import Shapoclyack.Library.Runs
import Shapoclyack.Library.TableCounts
import Shapoclyack.Library.ThreeValued
import Shapoclyack.Library.TokenBuckets
import Shapoclyack.Library.WorstOf
import Shapoclyack.Lifecycle
import Shapoclyack.LifecycleMachine
import Shapoclyack.MaintenanceOccurrences
import Shapoclyack.MatchAccounting
import Shapoclyack.MatchTables
import Shapoclyack.NatsOutbox
import Shapoclyack.OutboxLanes
import Shapoclyack.PackageIdentities
import Shapoclyack.PolicyCeilings
import Shapoclyack.PolicyMeet
import Shapoclyack.ProbedHosts
import Shapoclyack.ProductionEvidence
import Shapoclyack.PublicSuffixes
import Shapoclyack.PublicationNotes
import Shapoclyack.PulseResume
import Shapoclyack.RateBuckets
import Shapoclyack.ReplayHonesty
import Shapoclyack.ReportEntries
import Shapoclyack.ResultUploads
import Shapoclyack.ResumedBatches
import Shapoclyack.RetentionWindows
import Shapoclyack.RetroMatch
import Shapoclyack.RetroSoundness
import Shapoclyack.RollbackFence
import Shapoclyack.RunArchives
import Shapoclyack.RunPublications
import Shapoclyack.ScanPolicies
import Shapoclyack.ScanScopes
import Shapoclyack.ScannableTargets
import Shapoclyack.ScopeDocuments
import Shapoclyack.SecondFactors
import Shapoclyack.Sessions
import Shapoclyack.SlaSweeps
import Shapoclyack.SlotCeiling
import Shapoclyack.SoftwareCveMatch
import Shapoclyack.SoftwareFindings
import Shapoclyack.SpfCycles
import Shapoclyack.TargetPayloads
import Shapoclyack.Text
import Shapoclyack.TrackerTransactions
import Shapoclyack.UpstreamOrder
import Shapoclyack.VerdictAgreement
import Shapoclyack.VerificationArtifacts
import Shapoclyack.VerificationCoverage
import Shapoclyack.VerificationDispatch
import Shapoclyack.VerificationHonesty
import Shapoclyack.VerificationQueue
import Shapoclyack.VersionCompare
import Shapoclyack.VersionElements
import Shapoclyack.VersionOrder
import Shapoclyack.VersionTokens
import Shapoclyack.VulnStates
