import EZChain.Library.Checks
import EZChain.Library.SparseTree
import EZChain.Chain.History
import EZChain.Chain.Binding
import EZChain.Chain.StateTree
import EZChain.Chain.Replay
import EZChain.Chain.Confirmed
import EZChain.Transfer.DoubleSpend
import EZChain.Wallet.SelfAsserted
import EZChain.Consensus.Certificates
import EZChain.Host.Certified
import EZChain.Library.Cover
import EZChain.Wallet.Bundles
import EZChain.Wallet.Split
import EZChain.Wallet.Calls
import EZChain.Wallet.Conservation
import EZChain.Wallet.Credit
import EZChain.Wallet.Completeness
import EZChain.Wallet.Crash
import EZChain.Host.Payments
import EZChain.Host.Rollback
import EZChain.Consensus.Intersection
import EZChain.Consensus.Restart
import EZChain.Consensus.Sessions
import EZChain.Consensus.Finality
import EZChain.Consensus.Timeouts
import EZChain.Consensus.SignerVotes
import EZChain.Consensus.InboundVotes
import EZChain.Consensus.Database
import EZChain.Consensus.Crashes
import EZChain.Consensus.Recovery
import EZChain.Host.Startup
import EZChain.Host.RoundDriver
import EZChain.Chain.Admission
import EZChain.Host.ProposalVotes
import EZChain.Chain.FailedSave
import EZChain.App.Faucet
import EZChain.Host.ReceiptMessages
import EZChain.Host.ProofsKept
import EZChain.Host.AccountNetwork
import EZChain.Host.CanonicalView
import EZChain.BigEndian
import EZChain.DerSignatures
import EZChain.CanonicalBytes
import EZChain.Library.TableSelection
import EZChain.Wallet.CoinSelection
import EZChain.MerkleMaps
import EZChain.Wallet.CompactProofs
import EZChain.Chain.ReceiptRuns
import EZChain.Consensus.RejectedProposals
import EZChain.Host.LocalSessions
import EZChain.Host.FailedPayments
import EZChain.Serde.RoundTrip
import EZChain.ClaimNormalForms
import EZChain.Wallet.SenderUnits
import EZChain.Wallet.GenesisCredit
import EZChain.Wallet.SidecarRefs
import EZChain.Consensus.TimeoutCertificates
import EZChain.Consensus.Sortition
import EZChain.Host.TimeoutRounds
import EZChain.Library.Interference
import EZChain.Host.ChainSync
import EZChain.Chain.DiffRoot
import EZChain.Serde.Conversion
import EZChain.Host.ReceiptRecovery
import EZChain.Host.ReceiptDispatch
import EZChain.Host.InProcessRounds
import EZChain.Host.Mailbox
import EZChain.Host.LocalNetworkRuns
import EZChain.Host.Elections
import EZChain.Host.Transport
