import Msb.Infra.Text
import Msb.Infra.FileTree
import Msb.Infra.Float
import Msb.Infra.FloatArith
import Msb.Infra.Number
import Msb.Infra.Json
import Msb.Infra.JsonRoundtrip
import Msb.Infra.Hex
import Msb.Infra.PyValue
import Msb.Infra.PyReload
import Msb.Infra.JsonUnsorted
import Msb.Infra.HashChain
import Msb.Infra.Run
import Msb.Infra.ReadWrite
import Msb.Infra.Keyed
import Msb.Ledger.AuditChain
import Msb.Ledger.AppendVerify
import Msb.Ledger.TamperEvidence
import Msb.Ledger.Merkle
import Msb.Ledger.StorageContract
import Msb.Ledger.Signing
import Msb.Ledger.KeyRegistry
import Msb.Ledger.AuditV2
import Msb.Ledger.ChainAnchor
import Msb.Ledger.AnchorSpec
import Msb.Ledger.AnchorClassify
import Msb.Ledger.AnchorSigner
import Msb.Ledger.AnchorDaemon
import Msb.Ledger.KeyOps
import Msb.Ledger.Revocation
import Msb.Ledger.NotaryHistory
import Msb.Mission.States
import Msb.Mission.Store
import Msb.Mission.System
import Msb.Mission.Authority
import Msb.Mission.Agreement
import Msb.Mission.Staleness
import Msb.Tasks.Lifecycle
import Msb.Infra.Lines
import Msb.Ledger.Notary
import Msb.Ledger.NotaryAgreement
import Msb.Governance.Approval
import Msb.Governance.Budget
import Msb.Governance.Governor
import Msb.Governance.RollingCap
import Msb.Agent.Executor
import Msb.Agent.LoopState
import Msb.Agent.Planner
import Msb.Agent.RalphLoop
import Msb.Agent.Scopes
import Msb.Agent.TaintFlow
import Msb.Agent.ToolGate
import Msb.Node.Identity
import Msb.Node.Replay
import Msb.Infra.Program
import Msb.Vesta.Approvals
import Msb.Vesta.Permit
import Msb.Vesta.SingleExecution
import Msb.Evidence.Spine
import Msb.Evidence.SpineTamper
import Msb.Node.FileWriter
import Msb.Node.Finality
import Msb.Vesta.FileWriter
import Msb.Vesta.WriteRecovery
import Msb.Conversation.ClaimHistory
import Msb.Conversation.Overlap
import Msb.Conversation.CrashSafety
import Msb.Conversation.Verified
import Msb.Conversation.RolledBack
import Msb.Conversation.DagRun
import Msb.Memory.Lifecycle
import Msb.Memory.Trail
import Msb.Rag.SnapshotMachine
import Msb.Rag.VerifiedSearch
import Msb.Retrieval.Interchangeable
import Msb.Meta.BoundedLearning
import Msb.Agent.GrantDrift
import Msb.Plei.GateObeyed
import Msb.Plei.Calibration
import Msb.Plei.CalibrationChain
import Msb.Moie.PanelVerdict
import Msb.Factory.Pipeline
import Msb.Factory.Merged
import Msb.Wake.Store
import Msb.Wake.AnsweredOnce
import Msb.Db.Migrations
import Msb.Db.AppliedOnce
import Msb.Automation.Cron
import Msb.Automation.CronSemantics
import Msb.Automation.CronRuns
import Msb.Infra.PaddedTree
import Msb.Ledger.Inclusion
import Msb.Ledger.InclusionSound
import Msb.Infra.CutText
import Msb.Ledger.V2Verify
import Msb.Ledger.V2Segment
import Msb.Ledger.V2Append
import Msb.Ledger.V2Crash
import Msb.Ledger.V2Cut
import Msb.Ledger.Verdict
import Msb.Ledger.StampGuard
import Msb.Ledger.AnchoredAppend
import Msb.Ledger.Migration
import Msb.Ledger.MigrationRerun
import Msb.Agent.TaskOrder
import Msb.Vesta.Policy
import Msb.Tasks.Reconcile
import Msb.Infra.JsonTexts
import Msb.Conversation.Stream
import Msb.Infra.Climb
import Msb.Conversation.Workflow
import Msb.Conversation.SideEffects
import Msb.Conversation.Guardrail
import Msb.Ops.AutoRepair
import Msb.Conversation.Replayed
import Msb.Infra.JsonJoined
import Msb.Agent.TraceHash
import Msb.Memory.Laundering
import Msb.Memory.IdealDecay
import Msb.Fabric.ContextEngine
import Msb.Rag.Manifest
import Msb.Codegraph.Impact
import Msb.Core.RateLimit
import Msb.Plei.PackageGraph
import Msb.Plei.CycleSearch
import Msb.Plei.CriticalPath
import Msb.Ops.Discrepancy
import Msb.Ops.Verify
import Msb.Infra.Triple
import Msb.Ledger.MigrationFinal
import Msb.Ledger.Repair
import Msb.Ledger.Export
