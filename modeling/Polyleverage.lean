import Polyleverage.Address
import Polyleverage.Attestation
import Polyleverage.Codec.Basic
import Polyleverage.Codec.Records
import Polyleverage.Codec.Words
import Polyleverage.Exec.Avoiding
import Polyleverage.Exec.Basic
import Polyleverage.Exec.Commuting
import Polyleverage.Exec.GivingUp
import Polyleverage.Exec.Keeping
import Polyleverage.Exec.Upholding
import Polyleverage.Guarantees.Addresses
import Polyleverage.Guarantees.Affordable
import Polyleverage.Guarantees.Amortisation
import Polyleverage.Guarantees.Attestations
import Polyleverage.Guarantees.Authenticity
import Polyleverage.Guarantees.Backing
import Polyleverage.Guarantees.Books
import Polyleverage.Guarantees.BoundedLoss
import Polyleverage.Guarantees.Decimals
import Polyleverage.Guarantees.Delegates
import Polyleverage.Guarantees.Delegation
import Polyleverage.Guarantees.Discovery
import Polyleverage.Guarantees.Encodings
import Polyleverage.Guarantees.Endings
import Polyleverage.Guarantees.Equities
import Polyleverage.Guarantees.Exits
import Polyleverage.Guarantees.FeeBuffers
import Polyleverage.Guarantees.FeeTiers
import Polyleverage.Guarantees.Images
import Polyleverage.Guarantees.InlineDiscovery
import Polyleverage.Guarantees.InlineFailures
import Polyleverage.Guarantees.InlineMatches
import Polyleverage.Guarantees.Leaving
import Polyleverage.Guarantees.Liquidations
import Polyleverage.Guarantees.Locked
import Polyleverage.Guarantees.Markets
import Polyleverage.Guarantees.Multisig
import Polyleverage.Guarantees.Nodes
import Polyleverage.Guarantees.Pause
import Polyleverage.Guarantees.Positions
import Polyleverage.Guarantees.PostedLoss
import Polyleverage.Guarantees.Prices
import Polyleverage.Guarantees.Ranges
import Polyleverage.Guarantees.Reentries
import Polyleverage.Guarantees.Registries
import Polyleverage.Guarantees.Removals
import Polyleverage.Guarantees.DelegatedRefunds
import Polyleverage.Guarantees.Resolutions
import Polyleverage.Guarantees.SeatCounters
import Polyleverage.Guarantees.SeatRegistry
import Polyleverage.Guarantees.Sessions
import Polyleverage.Guarantees.Settlement
import Polyleverage.Guarantees.Signatures
import Polyleverage.Guarantees.Sizes
import Polyleverage.Guarantees.Solvency
import Polyleverage.Guarantees.Standing
import Polyleverage.Guarantees.TakeBack
import Polyleverage.Guarantees.Timelock
import Polyleverage.Guarantees.Uncrossing
import Polyleverage.Guarantees.Volumes
import Polyleverage.Guarantees.Walks
import Polyleverage.Instruction
import Polyleverage.Invariants.AdminMoves
import Polyleverage.Invariants.Bare
import Polyleverage.Invariants.BestFirst
import Polyleverage.Invariants.BookEvents
import Polyleverage.Invariants.BookFill
import Polyleverage.Invariants.BookMatch
import Polyleverage.Invariants.BookOps
import Polyleverage.Invariants.BookStep
import Polyleverage.Invariants.BookView
import Polyleverage.Invariants.Buffers
import Polyleverage.Invariants.Cancels
import Polyleverage.Invariants.Charges
import Polyleverage.Invariants.Checks
import Polyleverage.Invariants.Counters
import Polyleverage.Invariants.Cushions
import Polyleverage.Invariants.FailedMatch
import Polyleverage.Invariants.Footprint
import Polyleverage.Invariants.FundMoves
import Polyleverage.Invariants.Gap
import Polyleverage.Invariants.Genuine
import Polyleverage.Invariants.History
import Polyleverage.Invariants.Intake
import Polyleverage.Invariants.Issued
import Polyleverage.Invariants.Layout
import Polyleverage.Invariants.MarginStep
import Polyleverage.Invariants.Matches
import Polyleverage.Invariants.Moves
import Polyleverage.Invariants.NodePool
import Polyleverage.Invariants.Nodewise
import Polyleverage.Invariants.Numbers
import Polyleverage.Invariants.Opening
import Polyleverage.Invariants.OrderTree
import Polyleverage.Invariants.PositionMoves
import Polyleverage.Invariants.Posting
import Polyleverage.Invariants.Queue
import Polyleverage.Invariants.Reserves
import Polyleverage.Invariants.SeatCounts
import Polyleverage.Invariants.SettleMoves
import Polyleverage.Invariants.Settling
import Polyleverage.Invariants.Shelves
import Polyleverage.Invariants.TakerFee
import Polyleverage.Invariants.Tokens
import Polyleverage.Invariants.TradeMoves
import Polyleverage.Invariants.Upkeep
import Polyleverage.Invariants.Vacant
import Polyleverage.Invariants.Withdrawals
import Polyleverage.Math.Fixed
import Polyleverage.Math.Pnl
import Polyleverage.Math.Rounding
import Polyleverage.Pod
import Polyleverage.Processor.Admin
import Polyleverage.Processor.Book
import Polyleverage.Processor.Fees
import Polyleverage.Processor.Instrument
import Polyleverage.Processor.Intent
import Polyleverage.Processor.Margin
import Polyleverage.Processor.Match
import Polyleverage.Processor.Position
import Polyleverage.Processor.Session
import Polyleverage.Processor.Settlement
import Polyleverage.Processor.Wusd
import Polyleverage.Program
import Polyleverage.Ranges.Admin
import Polyleverage.Ranges.Book
import Polyleverage.Ranges.Ledger
import Polyleverage.Ranges.Pod
import Polyleverage.Ranges.Positions
import Polyleverage.Ranges.State
import Polyleverage.Ranges.Trading
import Polyleverage.RedBlack.Bounded
import Polyleverage.RedBlack.Height
import Polyleverage.RedBlack.Insertion
import Polyleverage.RedBlack.Linked
import Polyleverage.RedBlack.Relinked
import Polyleverage.RedBlack.Removal
import Polyleverage.RedBlack.Rotation
import Polyleverage.RedBlack.Search
import Polyleverage.RedBlack.Stored
import Polyleverage.RedBlack.Tree
import Polyleverage.RedBlack.Unseen
import Polyleverage.Runtime.Basic
import Polyleverage.Runtime.Ledger
import Polyleverage.Sample
import Polyleverage.State.Admin
import Polyleverage.State.Fees
import Polyleverage.State.IntentBook
import Polyleverage.State.IntentTree
import Polyleverage.State.MarginAccount
import Polyleverage.State.Market
import Polyleverage.State.Raw
import Polyleverage.State.SeatTree
import Polyleverage.Store.Basic
import Polyleverage.Store.Slots
import Polyleverage.Wire
