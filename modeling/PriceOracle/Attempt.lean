/-! Operations that may fail half way. The state they leave is part of the outcome, also when they
fail. -/
namespace PriceOracle

/-- What an operation answers, and the state it leaves. -/
structure Attempt (σ ε α : Type) where
  result : Except ε α
  state : σ

namespace Attempt

variable {σ ε α β : Type}

/-- A success that leaves the given state. -/
def ok (s : σ) (a : α) : Attempt σ ε α := ⟨.ok a, s⟩

/-- A failure that leaves the given state. -/
def fail (s : σ) (e : ε) : Attempt σ ε α := ⟨.error e, s⟩

def map (f : α → β) (x : Attempt σ ε α) : Attempt σ ε β := ⟨x.result.map f, x.state⟩

end Attempt

theorem exists_of_map_eq_ok {ε α β : Type} {x : Except ε α} {f : α → β} {b : β} (h : x.map f = .ok b) :
    ∃ a, x = .ok a ∧ f a = b := by
  cases x with
  | error e => cases h
  | ok a => exact ⟨a, rfl, Except.ok.inj h⟩

end PriceOracle
