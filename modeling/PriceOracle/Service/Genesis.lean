import PriceOracle.Network.Governance
import PriceOracle.Service.Settings
/-! The network that settings describe: the first balances are minted in their order, then the pairs
are registered in theirs, as changes that the governor makes. -/
namespace PriceOracle

def Ledger.fund (ledger : Ledger) : List GenesisBalance → Except StakingError Ledger
  | [] => .ok ledger
  | b :: bs =>
    match ledger.mint b.account b.amount with
    | .error e => .error e
    | .ok ledger => ledger.fund bs

/-- The network with pairs registered by an account. -/
def Network.registerPairs (n : Network) (caller : Address) (ctx : BlockContext) :
    List PairSettings → Except NetworkError Network
  | [] => .ok n
  | s :: rest =>
    match n.executeChange caller (.registerPair s.pair s.params) ctx with
    | ⟨.error e, _⟩ => .error e
    | ⟨.ok (), n⟩ => n.registerPairs caller ctx rest

/-- The network at its start. -/
def Settings.bootstrap (s : Settings) (ctx : BlockContext) : Except NetworkError Network :=
  match Ledger.empty.fund s.chain.genesis with
  | .error e => .error (.staking e)
  | .ok ledger =>
    match Network.new s.network ledger with
    | .error e => .error e
    | .ok n => n.registerPairs s.network.governor ctx s.pairs

end PriceOracle
