import AgentWorx.Lib.Sync
import AgentWorx.Lib.Async
import AgentWorx.Lib.EventLoop
import AgentWorx.Lib.RelyGuarantee
import AgentWorx.Lib.Rounding
import AgentWorx.Lib.Text
import AgentWorx.Lib.Upsert
import AgentWorx.Lib.Exclusion
import AgentWorx.Lib.Issues
import AgentWorx.Lib.UnionFind
import AgentWorx.Lib.BoundedSearch
import AgentWorx.Lib.Trimming
import AgentWorx.Lib.Replacing
import AgentWorx.Lib.Lines
import AgentWorx.Lib.Json
import AgentWorx.Lib.JsonDumps
import AgentWorx.Lib.JsonObjects
import AgentWorx.Core.Exceptions
import AgentWorx.Core.Models
import AgentWorx.Core.Encoding
import AgentWorx.Core.RedisKeys
import AgentWorx.Infra.PostgresClient
import AgentWorx.Infra.KuzuClient
import AgentWorx.Infra.World
import AgentWorx.Infra.RedisClient
import AgentWorx.Core.AgentTypeService
import AgentWorx.Apprentice.GapDetector
import AgentWorx.Apprentice.QuestionGenerator
import AgentWorx.Apprentice.AnswerProcessor
import AgentWorx.Apprentice.GraphWriter
import AgentWorx.Apprentice.ReadinessScorer
import AgentWorx.Apprentice.ProposalEngine
import AgentWorx.Apprentice.ProposalReviewService
import AgentWorx.Apprentice.Columns
import AgentWorx.Apprentice.Replies
import AgentWorx.Apprentice.Cert1Service
import AgentWorx.Apprentice.Simulation.ContractValidator
import AgentWorx.Apprentice.Simulation.SessionManager
import AgentWorx.Api.Routes
import AgentWorx.Verify.Frames
import AgentWorx.Verify.Tables
import AgentWorx.Verify.SessionCalls
import AgentWorx.Verify.Effects
import AgentWorx.Verify.Requests
import AgentWorx.Verify.Sample
import AgentWorx.Verify.Certification
import AgentWorx.Verify.Review
import AgentWorx.Verify.Statements
import AgentWorx.Verify.Writer
import AgentWorx.Verify.KnowledgeGraph
import AgentWorx.Verify.Session
import AgentWorx.Verify.Coordination
import AgentWorx.Verify.Closing
import AgentWorx.Verify.Versions
import AgentWorx.Verify.Contracts
import AgentWorx.Verify.Confidence
import AgentWorx.Verify.Readiness
import AgentWorx.Verify.Caching
import AgentWorx.Verify.Merge
import AgentWorx.Verify.Creation
import AgentWorx.Verify.SoleCreation
import AgentWorx.Verify.Retry
import AgentWorx.Verify.Identifiers
import AgentWorx.Verify.ReviewCalls
import AgentWorx.Verify.Approval
import AgentWorx.Verify.Resolutions
import AgentWorx.Verify.Handoffs
import AgentWorx.Verify.Enforcement
import AgentWorx.Verify.Labels
import AgentWorx.Verify.Provenance
import AgentWorx.Verify.LatestApproved
import AgentWorx.Verify.Clusters
import AgentWorx.Verify.HandoffCandidates
import AgentWorx.Verify.Gaps
import AgentWorx.Verify.Holdings
import AgentWorx.Verify.Transcripts
import AgentWorx.Verify.Shares
import AgentWorx.Verify.CloseSummary
import AgentWorx.Verify.ResolutionCalls
import AgentWorx.Verify.Marks
import AgentWorx.Verify.Clarifications
import AgentWorx.Verify.Consistency
import AgentWorx.Verify.Interrupted
import AgentWorx.Verify.Breadth
import AgentWorx.Verify.KnownConcepts
import AgentWorx.Verify.CoveredConcepts
import AgentWorx.Verify.Namespaces
import AgentWorx.Verify.FencedJson
import AgentWorx.Verify.Columns
import AgentWorx.Verify.Replies
import AgentWorx.Verify.Isolation
import AgentWorx.Lib.Declining
import AgentWorx.Verify.Refusals
import AgentWorx.Lib.Growing
import AgentWorx.Verify.Growth
import AgentWorx.Verify.Summaries
import AgentWorx.Verify.Replay
import AgentWorx.Verify.PhaseGate
import AgentWorx.Lib.Mirroring
import AgentWorx.Verify.View
import AgentWorx.Verify.Erasure
import AgentWorx.Verify.Alone
