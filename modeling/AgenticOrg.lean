import AgenticOrg.Lib.Dict
import AgenticOrg.Lib.Decimal
import AgenticOrg.Lib.Decimal.Bounds
import AgenticOrg.Lib.Kahn
import AgenticOrg.Lib.DepthFirst
import AgenticOrg.Lib.Fallible
import AgenticOrg.Lib.Kleene
import AgenticOrg.Lib.Regex
import AgenticOrg.Lib.Replay
import AgenticOrg.Lib.Table
import AgenticOrg.Lib.VersionedStore
import AgenticOrg.Lib.VersionedStore.Theorems
import AgenticOrg.Workflows.Values
import AgenticOrg.Workflows.Definition
import AgenticOrg.Workflows.Retry
import AgenticOrg.Workflows.Parser
import AgenticOrg.Workflows.Sort
import AgenticOrg.Workflows.Parser.Theorems
import AgenticOrg.Workflows.Sort.Theorems
import AgenticOrg.Workflows.State
import AgenticOrg.Workflows.Results
import AgenticOrg.Workflows.Replan
import AgenticOrg.Workflows.Engine
import AgenticOrg.Workflows.Tasks
import AgenticOrg.Workflows.Engine.Writes
import AgenticOrg.Workflows.Results.Lemmas
import AgenticOrg.Workflows.Engine.Theorems
import AgenticOrg.Workflows.Runs
import AgenticOrg.Workflows.Runs.Status
import AgenticOrg.Workflows.Runs.Alone
import AgenticOrg.Workflows.Runs.Timeout
import AgenticOrg.Workflows.Backfill
import AgenticOrg.Workflows.Runs.Keys
import AgenticOrg.Workflows.Runs.Places
import AgenticOrg.Workflows.Runs.RoundTrip
import AgenticOrg.Workflows.Runs.Replans
import AgenticOrg.Workflows.Walk
import AgenticOrg.Workflows.Walk.Theorems
import AgenticOrg.Workflows.Runs.Drivers
import AgenticOrg.Workflows.Branches
import AgenticOrg.Workflows.Branches.Moves
import AgenticOrg.Workflows.Branches.Theorems
import AgenticOrg.Workflows.Runs.Branches
import AgenticOrg.Workflows.Runs.Dependencies
import AgenticOrg.Workflows.Runs.Resume
import AgenticOrg.Workflows.Parallel
import AgenticOrg.Workflows.Parallel.Theorems
import AgenticOrg.Workflows.Collaboration
import AgenticOrg.Workflows.Collaboration.Theorems
import AgenticOrg.Workflows.Digits
import AgenticOrg.Workflows.Trigger
import AgenticOrg.Workflows.Trigger.Grammar
import AgenticOrg.Workflows.Trigger.Names
import AgenticOrg.Workflows.Trigger.Texts
import AgenticOrg.Workflows.Trigger.Matching
import AgenticOrg.Workflows.Trigger.Theorems
import AgenticOrg.Workflows.Conditions
import AgenticOrg.Workflows.Conditions.Knowledge
import AgenticOrg.Workflows.Conditions.Splits
import AgenticOrg.Workflows.Conditions.Formulas
import AgenticOrg.Workflows.Conditions.Cuts
import AgenticOrg.Workflows.Conditions.Connectives
import AgenticOrg.Workflows.Conditions.Theorems
import AgenticOrg.Policy.Types
import AgenticOrg.Policy.Loader
import AgenticOrg.Policy.Loader.Theorems
import AgenticOrg.Policy.Engine
import AgenticOrg.Policy.Engine.Theorems
import AgenticOrg.Policy.Theorems
import AgenticOrg.Spend.Rates
import AgenticOrg.Spend.Rates.Theorems
import AgenticOrg.Spend.Reconcile
import AgenticOrg.Spend.Reconcile.Theorems
import AgenticOrg.Spend.Reconcile.Tolerance
import AgenticOrg.Spend.Reconcile.Assignments
import AgenticOrg.Spend.Reconcile.Runs
import AgenticOrg.Spend.Reconcile.Acceptance
import AgenticOrg.Spend.Usage
import AgenticOrg.Spend.Rollups
import AgenticOrg.Spend.Rollups.Theorems
import AgenticOrg.Spend.Rollups.Mirror
import AgenticOrg.Lib.Delimited
import AgenticOrg.Spend.Resolver.Theorems
import AgenticOrg.Spend.Rollups.Keys
import AgenticOrg.Spend.Commitments
import AgenticOrg.Spend.Commitments.Passes
import AgenticOrg.Spend.Commitments.Theorems
import AgenticOrg.Spend.Commitments.Replays
import AgenticOrg.Spend.Commitments.Overages
import AgenticOrg.Spend.Jobs
import AgenticOrg.Spend.Pricing
import AgenticOrg.Spend.Pricing.Theorems
import AgenticOrg.Spend.Writer
import AgenticOrg.Spend.Writer.Theorems
import AgenticOrg.Spend.Gaps
import AgenticOrg.Spend.Gaps.Theorems
import AgenticOrg.Spend.Jobs.Theorems
import AgenticOrg.Spend.Jobs.Followups
import AgenticOrg.Lib.Award
import AgenticOrg.Lib.Award.Apportion
import AgenticOrg.Spend.Gpu
import AgenticOrg.Spend.Gpu.Split
import AgenticOrg.Spend.Gpu.Precision
import AgenticOrg.Spend.Gpu.Splits
import AgenticOrg.Spend.Gpu.Passes
import AgenticOrg.Spend.Gpu.Runs
import AgenticOrg.Spend.Gpu.Theorems
import AgenticOrg.Commerce.Payments
import AgenticOrg.Commerce.Refunds
import AgenticOrg.Lib.Lists
import AgenticOrg.Commerce.Payments.Theorems
import AgenticOrg.Commerce.Refunds.Theorems
import AgenticOrg.Commerce.Checkout
import AgenticOrg.Commerce.Checkout.Charges
import AgenticOrg.Commerce.Checkout.Orders
import AgenticOrg.Commerce.HostedRefunds
import AgenticOrg.Commerce.HostedRefunds.Ledgers
import AgenticOrg.Commerce.HostedRefunds.Bounds
import AgenticOrg.Commerce.HostedRefunds.Settlements
import AgenticOrg.Commerce.HostedRefunds.Outstanding
import AgenticOrg.Commerce.Handoff
import AgenticOrg.Commerce.Handoff.Payments
import AgenticOrg.Commerce.Handoff.Records
import AgenticOrg.Commerce.Handoff.References
import AgenticOrg.Commerce.Idempotency
import AgenticOrg.Commerce.Idempotency.Theorems
import AgenticOrg.Tools.Gateway
import AgenticOrg.Tools.Gateway.Theorems
import AgenticOrg.Push.Outbox
import AgenticOrg.Push.Outbox.Theorems
import AgenticOrg.Lib.Json
import AgenticOrg.Lib.Json.Theorems
import AgenticOrg.Lib.Json.Canonical
import AgenticOrg.Pii.Pseudonyms
import AgenticOrg.Pii.Pseudonyms.Tokens
import AgenticOrg.Pii.Pseudonyms.Theorems
import AgenticOrg.Lib.Splice
import AgenticOrg.Pii.Masking
import AgenticOrg.Pii.Masking.Texts
import AgenticOrg.Pii.Masking.Restoring
import AgenticOrg.Pii.Masking.Theorems
import AgenticOrg.Crypto.Vault
import AgenticOrg.Crypto.Verify
import AgenticOrg.Crypto.Rewrap
import AgenticOrg.Crypto.Rewrap.Theorems
import AgenticOrg.Crypto.Rewrap.Concurrent
import AgenticOrg.Crypto.Retirement
import AgenticOrg.Lib.Pruning
import AgenticOrg.Commerce.Negotiation
import AgenticOrg.Pii.Overlaps
import AgenticOrg.Tools.RateLimiter
import AgenticOrg.Crypto.Keyring
import AgenticOrg.Lib.Fresh
import AgenticOrg.Commerce.Ucp.Quantity
import AgenticOrg.Commerce.Ucp.Quantity.Theorems
import AgenticOrg.Commerce.Ucp.LineItems
import AgenticOrg.Commerce.Ucp.LineItems.Ids
import AgenticOrg.Commerce.Ucp.LineItems.Pricing
import AgenticOrg.Commerce.Ucp.Fulfillment
import AgenticOrg.Commerce.Ucp.Evaluation
import AgenticOrg.Commerce.Ucp.Evaluation.History
import AgenticOrg.Commerce.Ucp.Evaluation.Amounts
import AgenticOrg.Commerce.Ucp.Evaluation.Rebuilt
import AgenticOrg.Commerce.Ucp.Evaluation.Methods
import AgenticOrg.Commerce.Ucp.Evaluation.Recheck
import AgenticOrg.Commerce.Ucp.Orders
import AgenticOrg.Commerce.Ucp.Orders.Theorems
import AgenticOrg.Cases.Investigation.Stranded
import AgenticOrg.Cases.Runs.Announced
import AgenticOrg.Cases.Runs.Changes
import AgenticOrg.Cases.Decisions
import AgenticOrg.Cases.Decisions.Theorems
import AgenticOrg.Lib.Splice.SinglePass
import AgenticOrg.Lib.Splice.Layout
import AgenticOrg.Pii.Redaction
import AgenticOrg.Pii.Redaction.Theorems
import AgenticOrg.Lib.HashChain
import AgenticOrg.Lib.Json.Written
import AgenticOrg.Governance.AuditChain
import AgenticOrg.Governance.AuditChain.Theorems
import AgenticOrg.Governance.AuditChain.Walks
import AgenticOrg.Governance.AuditChain.Interleaved
import AgenticOrg.Governance.LedgerExport
import AgenticOrg.Governance.LedgerExport.Theorems
import AgenticOrg.Lib.History
import AgenticOrg.Commerce.Arbiter
import AgenticOrg.Commerce.Arbiter.Theorems
import AgenticOrg.Commerce.Arbiter.Store
import AgenticOrg.Commerce.Arbiter.Store.Theorems
import AgenticOrg.Commerce.Arbiter.Store.Ledger
import AgenticOrg.Governance.ModelGatewayLimits
import AgenticOrg.Governance.ModelGatewayLimits.Theorems
