import Parley.Digest.Basic

namespace Parley

inductive BadRequest where
  | unknownParty
  | unknownNegotiation
  | unknownTemplate
  | noContracts
  | alreadyExpired
  | conflictingTimeConstraints
  | badTimestamp
  | badHash
  | badSignature
  | awaitTurn
  | negotiationAccepted
  | negotiationRejected
  | negotiationExpired
  | unsupportedHashAlgorithm
  | invalidContract
  deriving DecidableEq, Repr

namespace BadRequest

def all : List BadRequest :=
  [.unknownParty, .unknownNegotiation, .unknownTemplate, .noContracts, .alreadyExpired,
    .conflictingTimeConstraints, .badTimestamp, .badHash, .badSignature, .awaitTurn,
    .negotiationAccepted, .negotiationRejected, .negotiationExpired, .unsupportedHashAlgorithm,
    .invalidContract]

def tag : BadRequest → String
  | .unknownParty => "UNKNOWN_PARTY"
  | .unknownNegotiation => "UNKNOWN_NEGOTIATION"
  | .unknownTemplate => "UNKNOWN_TEMPLATE"
  | .noContracts => "NO_CONTRACTS"
  | .alreadyExpired => "ALREADY_EXPIRED"
  | .conflictingTimeConstraints => "CONFLICTING_TIME_CONSTRAINTS"
  | .badTimestamp => "BAD_TIMESTAMP"
  | .badHash => "BAD_HASH"
  | .badSignature => "BAD_SIGNATURE"
  | .awaitTurn => "AWAIT_TURN"
  | .negotiationAccepted => "NEGOTIATION_ACCEPTED"
  | .negotiationRejected => "NEGOTIATION_REJECTED"
  | .negotiationExpired => "NEGOTIATION_EXPIRED"
  | .unsupportedHashAlgorithm => "UNSUPPORTED_HASH_ALGORITHM"
  | .invalidContract => "INVALID_CONTRACT"

end BadRequest

inductive RelayError where
  | unreachable (whom : String)
  | sendFailed (reason : String)
  | refused (reason : String)
  | fetchFailed (reason : String)
  | timeout
  deriving DecidableEq, Repr

def RelayError.message : RelayError → String
  | .unreachable whom => s!"Counter-party unreachable: {whom}"
  | .sendFailed reason => s!"Failed to send: {reason}"
  | .refused reason => s!"Counter-party refused the message: {reason}"
  | .fetchFailed reason => s!"Failed to fetch definitions: {reason}"
  | .timeout => "Operation timed out"

inductive Error where
  | badRequest (kind : BadRequest) (reason : String)
  | contractInvalid (template : String) (problems : List String)
  | hashCollision (hash : Digest)
  | idGenerationExhausted (attempts : Nat)
  | templateVanished (reason : String)
  | stalePreparation (reason : String)
  | certificate (reason : String)
  | noCompatibleScheme (reason : String)
  | ambiguous (reason : String)
  | unsupportedAlgorithm (name : String)
  | notOwned (party : String)
  | relay (cause : RelayError)
  | config (reason : String)
  | serialization (reason : String)
  | io (reason : String)
  deriving DecidableEq, Repr

namespace Error

def message : Error → String
  | .badRequest kind reason => s!"{kind.tag}: {reason}"
  | .contractInvalid template problems =>
    s!"Contract using template '{template}' is invalid: " ++ "; ".intercalate problems
  | .hashCollision hash => s!"Hash collision: {hash.text} already maps to a different definition"
  | .idGenerationExhausted attempts =>
    s!"Failed to allocate a unique negotiation id after {attempts} attempts"
  | .templateVanished reason => s!"Template of a validated contract vanished: {reason}"
  | .stalePreparation reason => s!"Prepared message does not match negotiation state: {reason}"
  | .certificate reason => s!"Certificate rejected: {reason}"
  | .noCompatibleScheme reason => s!"No signature scheme compatible with {reason}"
  | .ambiguous reason => s!"Ambiguous registry entry: {reason}"
  | .unsupportedAlgorithm name => s!"Unsupported algorithm: {name}"
  | .notOwned party => s!"Party cannot sign: {party}"
  | .relay cause => s!"Relay error: {cause.message}"
  | .config reason => s!"Invalid configuration: {reason}"
  | .serialization reason => s!"Serialization error: {reason}"
  | .io reason => s!"IO error: {reason}"

def kind : Error → Option BadRequest
  | .badRequest kind _ => some kind
  | .contractInvalid _ _ => some .invalidContract
  | .unsupportedAlgorithm _ => some .unsupportedHashAlgorithm
  | _ => none

/-- Broken invariants of the engine. These are never patched over. -/
def isFatal : Error → Bool
  | .hashCollision _ => true
  | .idGenerationExhausted _ => true
  | .templateVanished _ => true
  | .stalePreparation _ => true
  | _ => false

end Error

end Parley
