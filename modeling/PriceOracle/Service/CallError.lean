import PriceOracle.Json.Basic
import PriceOracle.Network.Error
/-! What a request can be answered with other than a result. Faults of the request itself have the
codes that every JSON-RPC service uses; refusals have one code for each category. -/
namespace PriceOracle

/-- Why a request was not carried out. -/
inductive CallError where
  /-- The line is no request. -/
  | unreadable
  /-- The request is of another version of the protocol. -/
  | wrongVersion
  | unknownMethod (method : String)
  /-- A parameter is missing or of the wrong kind. -/
  | badParams (detail : String)
  /-- The network no longer runs. -/
  | stopped
  | refused (kind : FaultKind) (detail : String)
deriving DecidableEq

def FaultKind.code : FaultKind → Int
  | inputValidation => -32010
  | authorization => -32020
  | stateInvariant => -32030
  | quorum => -32040

namespace CallError

def code : CallError → Int
  | unreadable => -32700
  | wrongVersion => -32600
  | unknownMethod _ => -32601
  | badParams _ => -32602
  | stopped => -32603
  | refused kind _ => kind.code

def label : CallError → String
  | unreadable => "PARSE_ERROR"
  | wrongVersion => "INVALID_REQUEST"
  | unknownMethod _ => "METHOD_NOT_FOUND"
  | badParams _ => "INVALID_PARAMS"
  | stopped => "INTERNAL_ERROR"
  | refused kind _ => kind.label

/-- What more is said of an error. -/
def data? : CallError → Option (String × String)
  | unreadable | wrongVersion => none
  | unknownMethod method => some ("method", method)
  | badParams detail => some ("detail", detail)
  | stopped => some ("detail", "network writer stopped")
  | refused _ detail => some ("detail", detail)

def toJson (e : CallError) : Json :=
  .obj ([("code", .int e.code), ("message", .str e.label)]
    ++ e.data?.elim [] fun (key, text) => [("data", .obj [(key, .str text)])])

/-- A refusal for want of authority. -/
def unauthorized (detail : String) : CallError := refused .authorization detail

def ofNetwork (e : NetworkError) : CallError := refused e.kind e.message

end CallError

end PriceOracle
