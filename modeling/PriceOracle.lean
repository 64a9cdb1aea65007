import PriceOracle.Main
import PriceOracle.Proofs.Staking.Ledger
import PriceOracle.Proofs.Staking.DelayVault
import PriceOracle.Proofs.Staking.Payments
import PriceOracle.Proofs.Staking.Vesting
import PriceOracle.Proofs.Staking.SharePool
import PriceOracle.Proofs.Staking.Custody
import PriceOracle.Proofs.Staking.Conservation
import PriceOracle.Proofs.Staking.ExchangeRate
import PriceOracle.Proofs.Staking.Holders
import PriceOracle.Proofs.Staking.Atomicity
import PriceOracle.Proofs.Staking.Tally
import PriceOracle.Proofs.Staking.StakeLock
import PriceOracle.Proofs.Staking.Parts
import PriceOracle.Proofs.Staking.Supply
import PriceOracle.Proofs.Staking.Terms
import PriceOracle.Proofs.Staking.Backing
import PriceOracle.Proofs.Staking.Conversion
import PriceOracle.Proofs.Staking.Withdrawal
import PriceOracle.Proofs.Staking.Parity
import PriceOracle.Proofs.Staking.Settling
import PriceOracle.Proofs.Crypto.Keccak
import PriceOracle.Proofs.Json.Writer
import PriceOracle.Proofs.Json.Reader
import PriceOracle.Proofs.Json.Canonical
import PriceOracle.Proofs.Json.Widened
import PriceOracle.Proofs.Text.Hex
import PriceOracle.Proofs.Pair
import PriceOracle.Proofs.Wire.Scalar
import PriceOracle.Proofs.Wire.Network
import PriceOracle.Proofs.Service.Authentication
import PriceOracle.Proofs.Service.Genesis
import PriceOracle.Proofs.Service.Nonces
import PriceOracle.Proofs.Service.RequestText
import PriceOracle.Proofs.Service.PriceText
import PriceOracle.Proofs.Registry.Entries
import PriceOracle.Proofs.Registry.Enrollment
import PriceOracle.Proofs.Registry.Index
import PriceOracle.Proofs.Registry.Order
import PriceOracle.Proofs.Registry.Hints
import PriceOracle.Proofs.Round.Shares
import PriceOracle.Proofs.Round.Quorum
import PriceOracle.Proofs.Feed.Reachable
import PriceOracle.Proofs.Feed.Publication
import PriceOracle.Proofs.Feed.Replay
import PriceOracle.Proofs.Feed.Subscribers
import PriceOracle.Proofs.Feed.Rewards
import PriceOracle.Proofs.Feed.Tenure
import PriceOracle.Proofs.Feed.Payouts
import PriceOracle.Proofs.Feed.Terms
import PriceOracle.Proofs.Feed.Ranking
import PriceOracle.Proofs.Feed.Pace
import PriceOracle.Proofs.Feed.Idleness
import PriceOracle.Proofs.Feed.Membership
import PriceOracle.Proofs.Feed.Points
import PriceOracle.Proofs.Network.Page
import PriceOracle.Proofs.Network.Outcome
import PriceOracle.Proofs.Network.EventLog
import PriceOracle.Proofs.Network.Seats
import PriceOracle.Proofs.Network.Moves
import PriceOracle.Proofs.Network.Mirror
import PriceOracle.Proofs.Network.Refresh
import PriceOracle.Proofs.Network.Current
import PriceOracle.Proofs.Network.Turns
import PriceOracle.Proofs.Network.Lawful
import PriceOracle.Proofs.Network.MinimumStake
import PriceOracle.Proofs.Network.Refusals
import PriceOracle.Proofs.Network.Tenure
import PriceOracle.Proofs.Network.Cosigners
import PriceOracle.Proofs.Network.Terms
import PriceOracle.Proofs.Network.Governance
import PriceOracle.Proofs.Network.Places
import PriceOracle.Proofs.Network.Selection
import PriceOracle.Proofs.Network.Pasts
import PriceOracle.Proofs.Network.Idleness
