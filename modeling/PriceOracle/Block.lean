import PriceOracle.Amount
/-! Where a call stands in chain time. Nothing in the network reads a clock: each call that depends on
time is given the block it runs in. -/
namespace PriceOracle

/-- A block's height, and its time in seconds since the epoch. -/
structure BlockContext where
  number : Nat
  timestamp : Nat
deriving DecidableEq, Repr, Inhabited

/-- The context `blocks` blocks later at `blockTime` seconds a block, held at the largest word. -/
def BlockContext.advance (ctx : BlockContext) (blocks blockTime : Nat) : BlockContext where
  number := Word.satAdd ctx.number blocks
  timestamp := Word.satAdd ctx.timestamp (Word.satMul blocks blockTime)

/-- A clock that counts blocks of equal length from a first moment. -/
structure BlockClock where
  genesis : Nat
  blockTime : Nat
deriving DecidableEq, Repr, Inhabited

namespace BlockClock

/-- A clock started at `now`: it begins at `genesis`, or now if that is zero, and a block lasts at least
a second. -/
def start (now genesis blockTime : Nat) : BlockClock where
  genesis := if genesis = 0 then now else genesis
  blockTime := max blockTime 1

/-- The block at a time. The first block is number 1, and times before it belong to it. -/
def blockAt (clock : BlockClock) (timestamp : Nat) : BlockContext where
  number := 1 + (timestamp - clock.genesis) / clock.blockTime
  timestamp := timestamp

end BlockClock

end PriceOracle
