import Parley.Message.Basic

namespace Parley

open Json

structure Contract.Slots where
  templateHash : Option Digest
  arguments : Option Arguments

def Contract.fields : List (RecordField Slots) :=
  [.slot "templateHash" (·.templateHash) (fun h s => { s with templateHash := some h })
      Digest.decode,
    .slot "arguments" (·.arguments) (fun a s => { s with arguments := some a }) Arguments.decode]

def Contract.decode : Reading → Decoded Contract :=
  record fields ⟨none, none⟩ fun s => do
    let templateHash ← required "templateHash" s.templateHash
    let arguments ← required "arguments" s.arguments
    .ok ⟨templateHash, arguments⟩

structure Offer.Slots where
  id : Option NegotiationId
  offeror : Option Digest
  receiver : Option Digest
  validAfter : Option Instant
  validUntil : Option Instant
  contracts : Option (List Contract)
  signature : Option Signature

def Offer.fields : List (RecordField Slots) :=
  [.slot "negotiationId" (·.id) (fun a s => { s with id := some a }) decodeWord,
    .slot "offerorFingerprint" (·.offeror) (fun a s => { s with offeror := some a }) Digest.decode,
    .slot "receiverFingerprint" (·.receiver) (fun a s => { s with receiver := some a })
      Digest.decode,
    .slot "validAfter" (·.validAfter) (fun a s => { s with validAfter := some a }) Instant.decode,
    .slot "validUntil" (·.validUntil) (fun a s => { s with validUntil := some a }) Instant.decode,
    .slot "contracts" (·.contracts) (fun a s => { s with contracts := some a })
      (decodeList Contract.decode),
    .slot "signature" (·.signature) (fun a s => { s with signature := some a }) Signature.decode]

def Offer.decode : Reading → Decoded Offer :=
  record fields ⟨none, none, none, none, none, none, none⟩ fun s => do
    let id ← required "negotiationId" s.id
    let offeror ← required "offerorFingerprint" s.offeror
    let receiver ← required "receiverFingerprint" s.receiver
    let validAfter ← required "validAfter" s.validAfter
    let validUntil ← required "validUntil" s.validUntil
    let contracts ← required "contracts" s.contracts
    let signature ← required "signature" s.signature
    .ok ⟨id, offeror, receiver, validAfter, validUntil, contracts, signature⟩

structure ClosingSlots where
  id : Option NegotiationId
  sender : Option Digest
  offeror : Option Digest
  offerHash : Option Digest
  signature : Option Signature

def closingFields (sender : String) : List (RecordField ClosingSlots) :=
  [.slot "negotiationId" (·.id) (fun a s => { s with id := some a }) decodeWord,
    .slot sender (·.sender) (fun a s => { s with sender := some a }) Digest.decode,
    .slot "offerorFingerprint" (·.offeror) (fun a s => { s with offeror := some a }) Digest.decode,
    .slot "offerHash" (·.offerHash) (fun a s => { s with offerHash := some a }) Digest.decode,
    .slot "signature" (·.signature) (fun a s => { s with signature := some a }) Signature.decode]

def decodeClosing {α : Type} (sender : String)
    (make : NegotiationId → Digest → Digest → Digest → Signature → α) : Reading → Decoded α :=
  record (closingFields sender) ⟨none, none, none, none, none⟩ fun s => do
    let id ← required "negotiationId" s.id
    let who ← required sender s.sender
    let offeror ← required "offerorFingerprint" s.offeror
    let offerHash ← required "offerHash" s.offerHash
    let signature ← required "signature" s.signature
    .ok (make id who offeror offerHash signature)

def Acceptance.decode : Reading → Decoded Acceptance :=
  decodeClosing "acceptorFingerprint" Acceptance.mk

def Rejection.decode : Reading → Decoded Rejection :=
  decodeClosing "rejectorFingerprint" Rejection.mk

namespace MessageKind

def names : List (String × MessageKind) :=
  [("offer", .offer), ("acceptance", .acceptance), ("rejection", .rejection)]

def toJson (k : MessageKind) : Json := .text k.name

def decode : Reading → Decoded MessageKind := decodeName names

def decodeTag : Reading → Decoded MessageKind
  | .text s => decode (.text s)
  | _ => .error .malformed

end MessageKind

namespace Message

def decodeAs : MessageKind → Reading → Decoded Message
  | .offer, v => (Offer.decode v).map .offer
  | .acceptance, v => (Acceptance.decode v).map .acceptance
  | .rejection, v => (Rejection.decode v).map .rejection

def maxDepth : Nat := 126

def readAhead (v : Reading) : Decoded Reading :=
  match v.ahead maxDepth with
  | some v => .ok v
  | none => .error .malformed

/-- Takes the members of a message in the order of the text: the tag is read where it stands, the
others are kept. -/
def splitTag (kind : Option MessageKind) :
    List (Option String × Reading) → Decoded (Option MessageKind × List (Option String × Reading))
  | [] => .ok (kind, [])
  | (none, _) :: _ => .error .malformed
  | (some key, v) :: rest =>
    if key = "type" then
      if kind.isSome then .error (.duplicateField "type")
      else do
        let k ← MessageKind.decodeTag v
        splitTag (some k) rest
    else do
      let v ← readAhead v
      let (kind, more) ← splitTag kind rest
      .ok (kind, (some key, v) :: more)

def decode : Reading → Decoded Message
  | .object members closed => do
    let (kind, members) ← splitTag none members
    if !closed then .error .malformed
    else do
      let kind ← required "type" kind
      decodeAs kind (.object members true)
  | .array [] closed => .error (if closed then .missingField "type" else .malformed)
  | .array (tag :: items) closed => do
    let kind ← MessageKind.decodeTag tag
    let items ← mapItems readAhead items
    if closed then decodeAs kind (.array items true) else .error .malformed
  | _ => .error .malformed

end Message

end Parley
