import LiteNode.Engine.Accounting
import LiteNode.Economy.EmissionSchedule
import LiteNode.Economy.RewardCredits
import LiteNode.Ledger.AccountPack
import LiteNode.Ledger.OverlayRuns
import LiteNode.Duty.Receipts
import LiteNode.Catchup.Binding
import LiteNode.Staging.Commitment
import LiteNode.Vm.MultiExec
import LiteNode.Vm.Resumption
import LiteNode.Relay.Sends
import LiteNode.Compute.Scheduling
import LiteNode.Query.Rates
import LiteNode.Logs.SyncRuns
import LiteNode.Logs.ReliefRuns
import LiteNode.Auxiliary.Runs
import LiteNode.Circles.ReportedRuns
import LiteNode.Validators.EscrowRuns
import LiteNode.Validators.HandoverRuns
import LiteNode.Chaindata.TxLogRuns
import LiteNode.Chaindata.EpochLogRuns
import LiteNode.Engine.SkipRuns
import LiteNode.Chaindata.RewardWire
import LiteNode.Engine.RoundPool
import LiteNode.Engine.Network
import LiteNode.Catchup.SyncRuns
import LiteNode.Aml.SessionRuns
import LiteNode.Economy.FeeMarket
import LiteNode.Vm.Budgets
import LiteNode.Vm.IntText
import LiteNode.Vm.TextSearch
import LiteNode.Resources.Rewards
import LiteNode.Resources.Storage
import LiteNode.Validators.Selection
import LiteNode.Tensor.RmsNorm
