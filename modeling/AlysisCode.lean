import AlysisCode.PromptQueue.Lease
import AlysisCode.PromptQueue.Idempotency
import AlysisCode.PromptQueue.Lifetime
import AlysisCode.ForgeLedger.Fences
import AlysisCode.Patch.Basic
import AlysisCode.Stream.Lossless
import AlysisCode.RunLock.Release
import AlysisCode.Swarm.Capacity
import AlysisCode.Swarm.Usage
import AlysisCode.ChangeLedger.Lineage
import AlysisCode.Permission.Store
import AlysisCode.Permission.Decision
import AlysisCode.Plan.Acyclic
import AlysisCode.ReadLedger.Omission
import AlysisCode.Approval.Exact
import AlysisCode.Task.Identity
import AlysisCode.SessionStore.Agreement
import AlysisCode.Compaction.Outcome
import AlysisCode.Mcp.TokenStore
import AlysisCode.Mcp.MasterKey
import AlysisCode.Mcp.EventGrammar
import AlysisCode.Files.LineNumbers
import AlysisCode.Files.EditBytes
import AlysisCode.Mcp.StdioCorrelation
import AlysisCode.Egress.Destination
import AlysisCode.Safety.SafeHttp
import AlysisCode.Checkpoint.Improves
import AlysisCode.Usage.Balance
import AlysisCode.Knowledge.LastWord
import AlysisCode.ToolSchema.Exact
import AlysisCode.TaskEvidence.Survival
import AlysisCode.Terminal.Scavenge
import AlysisCode.Plan.Partition
import AlysisCode.Permission.ExactSelector
import AlysisCode.PromptQueue.Stored
import AlysisCode.Scope.Amended
import AlysisCode.Swarm.Redaction
import AlysisCode.Steering.Conserve
import AlysisCode.Cdp.Conserve
import AlysisCode.Certificate.Verdict
import AlysisCode.Compaction.Terminates
import AlysisCode.Deadline.Window
import AlysisCode.Compaction.Commit
import AlysisCode.Skills.Settled
import AlysisCode.Permission.Workspace
import AlysisCode.Usage.Cost
import AlysisCode.Approval.Broker
import AlysisCode.Files.Paging
import AlysisCode.Stream.Chunks
import AlysisCode.Compaction.Offload
import AlysisCode.Plan.Validate
import AlysisCode.Mcp.HttpPosts
import AlysisCode.Provider.Gate
