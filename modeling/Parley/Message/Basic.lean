import Parley.Arguments
import Parley.Signature
import Parley.Text.Utf8

namespace Parley

open Json

abbrev NegotiationId := UInt64

structure Contract where
  templateHash : Digest
  arguments : Arguments
  deriving DecidableEq

structure Offer where
  id : NegotiationId
  offeror : Digest
  receiver : Digest
  validAfter : Instant
  validUntil : Instant
  contracts : List Contract
  signature : Signature
  deriving DecidableEq

structure Acceptance where
  id : NegotiationId
  acceptor : Digest
  offeror : Digest
  offerHash : Digest
  signature : Signature
  deriving DecidableEq

structure Rejection where
  id : NegotiationId
  rejector : Digest
  offeror : Digest
  offerHash : Digest
  signature : Signature
  deriving DecidableEq

inductive Message where
  | offer (m : Offer)
  | acceptance (m : Acceptance)
  | rejection (m : Rejection)
  deriving DecidableEq

inductive MessageKind where
  | offer
  | acceptance
  | rejection
  deriving DecidableEq, Repr

def MessageKind.name : MessageKind → String
  | .offer => "offer"
  | .acceptance => "acceptance"
  | .rejection => "rejection"

def Contract.references (c : Contract) : List Digest :=
  c.arguments.values.filterMap Digest.ofText?

def Contract.toJson (c : Contract) : Json :=
  .object [("templateHash", c.templateHash.toJson), ("arguments", c.arguments.toJson)]

def wordToJson (n : UInt64) : Json :=
  .int n.toNat

def Offer.isExpired (m : Offer) (now : Instant) : Bool :=
  m.validUntil < now

def checkTerms {α : Type} (contracts : List α) (validAfter validUntil now : Instant) :
    Except Error Unit :=
  if contracts.isEmpty then
    .error (.badRequest .noContracts "offer must contain at least one contract")
  else if validUntil < validAfter then
    .error (.badRequest .conflictingTimeConstraints
      s!"validAfter {validAfter.text} is later than validUntil {validUntil.text}")
  else if validUntil < now then
    .error (.badRequest .alreadyExpired s!"offer expired at {validUntil.text}")
  else .ok ()

def Offer.validate (m : Offer) (now : Instant) : Except Error Unit :=
  checkTerms m.contracts m.validAfter m.validUntil now

def Offer.members (m : Offer) : List (String × Json) :=
  [("negotiationId", wordToJson m.id), ("offerorFingerprint", m.offeror.toJson),
    ("receiverFingerprint", m.receiver.toJson), ("validAfter", m.validAfter.toJson),
    ("validUntil", m.validUntil.toJson), ("contracts", .array (m.contracts.map Contract.toJson)),
    ("signature", m.signature.toJson)]

def Acceptance.members (m : Acceptance) : List (String × Json) :=
  [("negotiationId", wordToJson m.id), ("acceptorFingerprint", m.acceptor.toJson),
    ("offerorFingerprint", m.offeror.toJson), ("offerHash", m.offerHash.toJson),
    ("signature", m.signature.toJson)]

def Rejection.members (m : Rejection) : List (String × Json) :=
  [("negotiationId", wordToJson m.id), ("rejectorFingerprint", m.rejector.toJson),
    ("offerorFingerprint", m.offeror.toJson), ("offerHash", m.offerHash.toJson),
    ("signature", m.signature.toJson)]

namespace Message

def kind : Message → MessageKind
  | .offer _ => .offer
  | .acceptance _ => .acceptance
  | .rejection _ => .rejection

def id : Message → NegotiationId
  | .offer m => m.id
  | .acceptance m => m.id
  | .rejection m => m.id

def sender : Message → Digest
  | .offer m => m.offeror
  | .acceptance m => m.acceptor
  | .rejection m => m.rejector

def receiver : Message → Digest
  | .offer m => m.receiver
  | .acceptance m => m.offeror
  | .rejection m => m.offeror

def signature : Message → Signature
  | .offer m => m.signature
  | .acceptance m => m.signature
  | .rejection m => m.signature

def withSignature (s : Signature) : Message → Message
  | .offer m => .offer { m with signature := s }
  | .acceptance m => .acceptance { m with signature := s }
  | .rejection m => .rejection { m with signature := s }

def withSum (sum : Option (List UInt8)) (m : Message) : Message :=
  m.withSignature { m.signature with sum := sum }

def members : Message → List (String × Json)
  | .offer m => m.members
  | .acceptance m => m.members
  | .rejection m => m.members

/-- The JSON text of the message without its kind. -/
def canonicalText (m : Message) : String :=
  (Json.object m.members).compact

/-- The bytes a message is identified by. -/
def canonicalBytes (m : Message) : List UInt8 :=
  Text.utf8 m.canonicalText

def signingBytes (m : Message) : List UInt8 :=
  (m.withSum none).canonicalBytes

def sign (scheme : SignatureScheme) (seed : List UInt8) (m : Message) : Message :=
  m.withSum (some (scheme.sign seed m.signingBytes))

def toJson (m : Message) : Json :=
  .object (("type", .text m.kind.name) :: m.members)

/-- The digests a message refers to other messages by, in the order of the text. -/
def references : Message → List Digest
  | .offer m => m.contracts.flatMap Contract.references
  | .acceptance m => [m.offerHash]
  | .rejection m => [m.offerHash]

@[simp] theorem signature_withSignature (s : Signature) (m : Message) :
    (m.withSignature s).signature = s := by
  cases m <;> rfl

@[simp] theorem kind_withSignature (s : Signature) (m : Message) :
    (m.withSignature s).kind = m.kind := by
  cases m <;> rfl

@[simp] theorem withSignature_withSignature (s t : Signature) (m : Message) :
    (m.withSignature s).withSignature t = m.withSignature t := by
  cases m <;> rfl

@[simp] theorem signingBytes_withSum (sum : Option (List UInt8)) (m : Message) :
    (m.withSum sum).signingBytes = m.signingBytes := by
  simp [signingBytes, withSum]

end Message

end Parley
