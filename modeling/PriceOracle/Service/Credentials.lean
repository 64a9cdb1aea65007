import PriceOracle.Json.Writer
import PriceOracle.Service.CallError
import PriceOracle.Wire.Price
/-! Who makes a request. A request that names a caller carries a signature and a nonce besides its other
parameters. The caller signs the method, the nonce and the canonical text of those parameters. A nonce
counts once: it must be above the last one that was accepted from the same caller. -/
namespace PriceOracle

/-- The text that a caller signs. -/
def requestText (method : String) (nonce : Nat) (params : Json) : List Char :=
  method.toList ++ ':' :: (toString nonce).toList ++ ':' :: params.canonical.written

/-- The hash that a caller signs. The parameters are those without signature and nonce. -/
def requestHash (method : String) (nonce : Nat) (params : Json) : Hash :=
  signedMessageHash (Bytes.ofText (requestText method nonce params))

/-- The last nonce accepted from each caller. -/
abbrev Nonces := Table Address Nat

namespace Nonces

def accept (nonces : Nonces) (caller : Address) (nonce : Nat) : Except CallError Nonces :=
  match nonces.get? caller with
  | some last =>
    if nonce ≤ last then
      .error (.unauthorized ("nonce " ++ toString nonce ++ " not above " ++ toString last))
    else .ok (nonces.insert caller nonce)
  | none => .ok (nonces.insert caller nonce)

end Nonces

/-- What proves that a request is its caller's. -/
structure Credentials where
  signature : Signature
  nonce : Nat
deriving DecidableEq, Inhabited

namespace Credentials

/-- The names of the parameters that hold credentials. -/
def names : List String := ["signature", "nonce"]

/-- The credentials among parameters. -/
def ofMembers (ms : List (String × Json)) : Except CallError Credentials :=
  match Json.find "signature" ms with
  | none => .error (.unauthorized "signature required")
  | some j =>
    match Signature.ofJson? j with
    | none => .error (.badParams "signature")
    | some signature =>
      match (Json.find "nonce" ms).bind Word.ofJson? with
      | none => .error (.unauthorized "nonce required")
      | some nonce => .ok ⟨signature, nonce⟩

/-- The parameters besides the credentials. -/
def strip (ms : List (String × Json)) : Json := .obj (ms.filter (·.1 ∉ names))

/-- Checks that the credentials are a caller's, for a method and the other parameters. -/
def check (c : Credentials) (caller : Address) (method : String) (params : Json) : Except CallError Unit :=
  match recoverSigner (requestHash method c.nonce params) c.signature with
  | .error e => .error (.unauthorized e.message)
  | .ok signer =>
    if signer = caller then .ok () else .error (.unauthorized "signature does not match caller")

end Credentials

/-- Checks who makes a request. The answer is the parameters that its method sees, and the nonces after
it. Parameters that name no caller are passed on as they are. -/
def authenticate (nonces : Nonces) (method : String) (params : Json) : Except CallError (Json × Nonces) :=
  match params with
  | .obj ms =>
    match Json.find "caller" ms with
    | none => .ok (params, nonces)
    | some j =>
      match Address.ofJson? j with
      | none => .error (.badParams "caller")
      | some caller =>
        match Credentials.ofMembers ms with
        | .error e => .error e
        | .ok c =>
          match c.check caller method (Credentials.strip ms) with
          | .error e => .error e
          | .ok () =>
            match nonces.accept caller c.nonce with
            | .error e => .error e
            | .ok nonces => .ok (Credentials.strip ms, nonces)
  | _ => .ok (params, nonces)

end PriceOracle
