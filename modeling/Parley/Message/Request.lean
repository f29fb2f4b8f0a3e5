import Parley.Message.Wire

namespace Parley

open Json

structure RequestedContract where
  templateName : String
  arguments : Arguments
  deriving DecidableEq

structure OfferRequest where
  id : Option NegotiationId
  offerorName : String
  receiverName : String
  validAfter : Instant
  validUntil : Instant
  contracts : List RequestedContract
  deriving DecidableEq

structure AcceptanceRequest where
  id : NegotiationId
  acceptorName : String
  offerorName : String
  deriving DecidableEq

structure RejectionRequest where
  id : NegotiationId
  rejectorName : String
  offerorName : String
  deriving DecidableEq

namespace RequestedContract

def toJson (c : RequestedContract) : Json :=
  .object [("templateName", .text c.templateName), ("arguments", c.arguments.toJson)]

structure Slots where
  templateName : Option String
  arguments : Option Arguments

def fields : List (RecordField Slots) :=
  [.slot "templateName" (·.templateName) (fun n s => { s with templateName := some n }) decodeText,
    .slot "arguments" (·.arguments) (fun a s => { s with arguments := some a }) Arguments.decode]

def decode : Reading → Decoded RequestedContract :=
  record fields ⟨none, none⟩ fun s => do
    let templateName ← required "templateName" s.templateName
    let arguments ← required "arguments" s.arguments
    .ok ⟨templateName, arguments⟩

end RequestedContract

namespace OfferRequest

def validate (r : OfferRequest) (now : Instant) : Except Error Unit :=
  checkTerms r.contracts r.validAfter r.validUntil now

def toJson (r : OfferRequest) : Json :=
  .object [("negotiationId", (r.id.map wordToJson).getD .null),
    ("offerorName", .text r.offerorName), ("receiverName", .text r.receiverName),
    ("validAfter", r.validAfter.toJson), ("validUntil", r.validUntil.toJson),
    ("contracts", .array (r.contracts.map RequestedContract.toJson))]

structure Slots where
  id : Option (Option NegotiationId)
  offerorName : Option String
  receiverName : Option String
  validAfter : Option Instant
  validUntil : Option Instant
  contracts : Option (List RequestedContract)

def fields : List (RecordField Slots) :=
  [.slot "negotiationId" (·.id) (fun a s => { s with id := some a }) (optional decodeWord),
    .slot "offerorName" (·.offerorName) (fun a s => { s with offerorName := some a }) decodeText,
    .slot "receiverName" (·.receiverName) (fun a s => { s with receiverName := some a }) decodeText,
    .slot "validAfter" (·.validAfter) (fun a s => { s with validAfter := some a }) Instant.decode,
    .slot "validUntil" (·.validUntil) (fun a s => { s with validUntil := some a }) Instant.decode,
    .slot "contracts" (·.contracts) (fun a s => { s with contracts := some a })
      (decodeList RequestedContract.decode)]

def decode : Reading → Decoded OfferRequest :=
  record fields ⟨none, none, none, none, none, none⟩ fun s => do
    let offerorName ← required "offerorName" s.offerorName
    let receiverName ← required "receiverName" s.receiverName
    let validAfter ← required "validAfter" s.validAfter
    let validUntil ← required "validUntil" s.validUntil
    let contracts ← required "contracts" s.contracts
    .ok ⟨s.id.join, offerorName, receiverName, validAfter, validUntil, contracts⟩

end OfferRequest

structure ClosingRequestSlots where
  id : Option NegotiationId
  senderName : Option String
  offerorName : Option String

def closingRequestFields (sender : String) : List (RecordField ClosingRequestSlots) :=
  [.slot "negotiationId" (·.id) (fun a s => { s with id := some a }) decodeWord,
    .slot sender (·.senderName) (fun a s => { s with senderName := some a }) decodeText,
    .slot "offerorName" (·.offerorName) (fun a s => { s with offerorName := some a }) decodeText]

def decodeClosingRequest {α : Type} (sender : String) (make : NegotiationId → String → String → α) :
    Reading → Decoded α :=
  record (closingRequestFields sender) ⟨none, none, none⟩ fun s => do
    let id ← required "negotiationId" s.id
    let senderName ← required sender s.senderName
    let offerorName ← required "offerorName" s.offerorName
    .ok (make id senderName offerorName)

def AcceptanceRequest.toJson (r : AcceptanceRequest) : Json :=
  .object [("negotiationId", wordToJson r.id), ("acceptorName", .text r.acceptorName),
    ("offerorName", .text r.offerorName)]

def AcceptanceRequest.decode : Reading → Decoded AcceptanceRequest :=
  decodeClosingRequest "acceptorName" AcceptanceRequest.mk

def RejectionRequest.toJson (r : RejectionRequest) : Json :=
  .object [("negotiationId", wordToJson r.id), ("rejectorName", .text r.rejectorName),
    ("offerorName", .text r.offerorName)]

def RejectionRequest.decode : Reading → Decoded RejectionRequest :=
  decodeClosingRequest "rejectorName" RejectionRequest.mk

end Parley
