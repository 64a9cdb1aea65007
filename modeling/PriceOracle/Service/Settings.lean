import PriceOracle.Toml.Reader
import PriceOracle.Wire.Network
/-! The settings of a service: the network's parameters, the pairs to track from the start, the block
clock with the first balances, and the process. They are read from a TOML document, in which everything
may be left out. Addresses and amounts are hexadecimal strings as everywhere else; those of the governor,
of the least stake and of the first balances may also be lists of bytes. -/
namespace PriceOracle

structure PairSettings where
  pair : CoinPair
  params : RoundParams
deriving DecidableEq, Inhabited

structure GenesisBalance where
  account : Address
  amount : Amount
deriving DecidableEq, Inhabited

/-- The block clock and the first balances. -/
structure ChainSettings where
  blockTimeSecs : Nat := 30
  /-- When the first block begins; zero stands for the start of the service. -/
  genesisTimestamp : Nat := 0
  genesis : List GenesisBalance := []
deriving DecidableEq, Inhabited

/-- The settings of the process. An empty path stands for the usual one. -/
structure ProcessSettings where
  dataDir : String := ""
  socketPath : String := ""
  logLevel : String := "info"
  commandBuffer : Nat := 256
deriving DecidableEq, Inhabited

structure Settings where
  network : NetworkParams := {}
  pairs : List PairSettings := []
  chain : ChainSettings := {}
  process : ProcessSettings := {}
deriving DecidableEq, Inhabited

/-- Why settings were turned down. -/
inductive SettingsError where
  /-- The text is no document, or some value in it is of the wrong kind. -/
  | malformed
  | zeroBlockTime
  | repeatedPair (pair : CoinPair)
deriving DecidableEq

def SettingsError.message : SettingsError → String
  | malformed => "malformed settings"
  | zeroBlockTime => "chain.block_time_secs must be non-zero"
  | repeatedPair pair => "pair " ++ toString pair ++ " configured twice"

/-! ### JSON forms -/

/-- A list of bytes as the hexadecimal string that spells them; any other value as it is. -/
def Json.spelled (j : Json) : Json :=
  match listOf? byteOfJson? j with
  | some bs => .str (String.ofList (Hex.ofBytes bs))
  | none => j

/-- An object with the lists of bytes under some names spelled. -/
def Json.spellMembers (names : List String) : Json → Json
  | .obj ms => .obj (ms.map fun (name, j) => (name, if name ∈ names then j.spelled else j))
  | j => j

namespace PairSettings

/-- A pair and its parameters as one record. -/
def toJson (s : PairSettings) : Json := .obj (("name", s.pair.toJson) :: s.params.members)

def ofJson? (j : Json) : Option PairSettings := do
  let f ← Json.Fields.ofObject? j
  return ⟨← f.get "name" CoinPair.ofJson?, ← RoundParams.ofFields? f⟩

end PairSettings

namespace GenesisBalance

def toJson (b : GenesisBalance) : Json :=
  .obj [("account", b.account.toJson), ("amount", Amount.toJson b.amount)]

def ofJson? (j : Json) : Option GenesisBalance := do
  let f ← Json.Fields.ofOpen? ["account", "amount"] j
  return ⟨← f.get "account" (Address.ofJson? ∘ Json.spelled),
    ← f.get "amount" (Amount.ofJson? ∘ Json.spelled)⟩

end GenesisBalance

namespace ChainSettings

def toJson (s : ChainSettings) : Json :=
  .obj [("block_time_secs", .nat s.blockTimeSecs), ("genesis_timestamp", .nat s.genesisTimestamp),
    ("genesis", .arr (s.genesis.map GenesisBalance.toJson))]

def ofJson? (j : Json) : Option ChainSettings := do
  let f ← Json.Fields.ofOpen? ["block_time_secs", "genesis_timestamp", "genesis"] j
  let base : ChainSettings := {}
  return {
    blockTimeSecs := ← f.getD "block_time_secs" Word.ofJson? base.blockTimeSecs
    genesisTimestamp := ← f.getD "genesis_timestamp" Word.ofJson? base.genesisTimestamp
    genesis := ← f.getD "genesis" (Json.listOf? GenesisBalance.ofJson?) base.genesis }

end ChainSettings

namespace ProcessSettings

def toJson (s : ProcessSettings) : Json :=
  .obj [("data_dir", .str s.dataDir), ("socket_path", .str s.socketPath), ("log_level", .str s.logLevel),
    ("command_buffer", .nat s.commandBuffer)]

def ofJson? (j : Json) : Option ProcessSettings := do
  let f ← Json.Fields.ofOpen? ["data_dir", "socket_path", "log_level", "command_buffer"] j
  let base : ProcessSettings := {}
  return {
    dataDir := ← f.getD "data_dir" Json.str? base.dataDir
    socketPath := ← f.getD "socket_path" Json.str? base.socketPath
    logLevel := ← f.getD "log_level" Json.str? base.logLevel
    commandBuffer := ← f.getD "command_buffer" Word.ofJson? base.commandBuffer }

end ProcessSettings

namespace Settings

def toJson (s : Settings) : Json :=
  .obj [("network", s.network.toJson), ("pairs", .arr (s.pairs.map PairSettings.toJson)),
    ("chain", s.chain.toJson), ("daemon", s.process.toJson)]

def ofJson? (j : Json) : Option Settings := do
  let f ← Json.Fields.ofObject? j
  let base : Settings := {}
  return {
    network := ← f.getD "network"
      (NetworkParams.ofJson? ∘ Json.spellMembers ["governor", "min_subscription_stake"]) base.network
    pairs := ← f.getD "pairs" (Json.listOf? PairSettings.ofJson?) base.pairs
    chain := ← f.getD "chain" ChainSettings.ofJson? base.chain
    process := ← f.getD "daemon" ProcessSettings.ofJson? base.process }

/-! ### Reading -/

/-- The first member of a list that also stands before it, there or in `before`. -/
def repeated? (before : List CoinPair) : List CoinPair → Option CoinPair
  | [] => none
  | pair :: pairs => if pair ∈ before then some pair else repeated? (pair :: before) pairs

/-- The first condition that the settings miss. -/
def validate (s : Settings) : Except SettingsError Unit :=
  if s.chain.blockTimeSecs = 0 then .error .zeroBlockTime
  else
    match repeated? [] (s.pairs.map (·.pair)) with
    | some pair => .error (.repeatedPair pair)
    | none => .ok ()

/-- The settings that a document spells. -/
def ofToml (text : String) : Except SettingsError Settings :=
  match (Toml.ofString? text).bind ofJson? with
  | none => .error .malformed
  | some s => s.validate.map fun _ => s

end Settings

/-! ### Places -/

/-- What the environment says about places. -/
structure Environment where
  dataDir : Option String := none
  home : Option String := none
deriving DecidableEq, Inhabited

/-- A name within a directory. -/
def pathIn (dir name : String) : String :=
  if dir.isEmpty || dir.endsWith "/" then dir ++ name else dir ++ "/" ++ name

/-- The data directory where the settings name none. -/
def Environment.defaultDataDir (env : Environment) : String :=
  match env.dataDir, env.home with
  | some dir, _ => dir
  | none, some home => pathIn home ".moc"
  | none, none => "/tmp/moc"

def Settings.dataDir (s : Settings) (env : Environment) : String :=
  if s.process.dataDir.isEmpty then env.defaultDataDir else s.process.dataDir

def Settings.socketPath (s : Settings) (env : Environment) : String :=
  if s.process.socketPath.isEmpty then pathIn (s.dataDir env) "moc.sock" else s.process.socketPath

end PriceOracle
