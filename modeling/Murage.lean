import Murage.BillingLease.Runs
import Murage.Blake3.Tree
import Murage.BotCalls.Runs
import Murage.BranchIndex.Membership
import Murage.CancelCharges.Runs
import Murage.ChannelDelivery.Endings
import Murage.ChannelDelivery.PageSizes
import Murage.ClientBucket.Buckets
import Murage.CoordinationBudget.Runs
import Murage.FlowClosure.Closure
import Murage.FluxLedger.FencedCompletion
import Murage.FluxLedger.RouterAgreement
import Murage.FoldCohorts.Partition
import Murage.GrantFence.Reconciliation
import Murage.InProject.Walks
import Murage.Library.Transition
import Murage.OwnerSends.HeldSends
import Murage.OwnerSends.Order
import Murage.PhoneAsk.Revoked
import Murage.Postings.Exactness
import Murage.PushRevocations.Runs
import Murage.RankTies.Pages
import Murage.RevokeBudget.Runs
import Murage.RevokeFold.Runs
import Murage.RidList.Updates
import Murage.SendDelivery.Hooks
import Murage.Shell.Nesting
import Murage.Shell.BraceRanges
import Murage.SpokenFinals.Agreement
import Murage.SseReplay.Resume
import Murage.SseReplay.Writer
import Murage.SteerQueue.LegacyStarts
import Murage.SteerQueue.Requeue
import Murage.TaskWindow.Pages
import Murage.Transcript.Completeness
import Murage.Transcript.Convergence
import Murage.Transcript.Legacy
import Murage.TranscriptSeq.Runs
import Murage.TurnHolds.Ranges
import Murage.UsageLedger.Reports
import Murage.UsageLedger.Totals
import Murage.WorkAdmission.Caps
import Murage.Cbor.Decoder
import Murage.Mdns.Link
import Murage.Mdns.RoundTrip
import Murage.Mdns.Safety
import Murage.TxScope.Runs
import Murage.UpgradeMachine.Sequences
import Murage.SteerLineage.Turns
