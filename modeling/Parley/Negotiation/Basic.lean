import Parley.Message.Request
import Parley.Party.Directory
import Parley.Template.Directory

/-!
# Negotiations

Two parties take turns. An offer opens a negotiation and each side may answer with a counter-offer,
until the one whose turn it is accepts or rejects the last offer, or the last offer runs out.
Running out is noticed when somebody next tries to go on.

    INITIAL --offer--> OFFERING --offer--> OFFERING
                          |--acceptance--> ACCEPTED
                          |--rejection---> REJECTED
                          +--(last offer run out, noticed on the next attempt)--> EXPIRED

A message of an owned party is prepared, delivered and only then committed. What was prepared
commits only to the state it was prepared in. A message of the counter-party is checked and
committed at once.
-/

namespace Parley

inductive NegotiationStatus where
  | initial
  | offering
  | accepted
  | rejected
  | expired
  deriving DecidableEq, Repr

namespace NegotiationStatus

def name : NegotiationStatus → String
  | .initial => "INITIAL"
  | .offering => "OFFERING"
  | .accepted => "ACCEPTED"
  | .rejected => "REJECTED"
  | .expired => "EXPIRED"

def isTerminal : NegotiationStatus → Bool
  | .initial => false
  | .offering => false
  | .accepted => true
  | .rejected => true
  | .expired => true

def names : List (String × NegotiationStatus) :=
  [("INITIAL", .initial), ("OFFERING", .offering), ("ACCEPTED", .accepted),
    ("REJECTED", .rejected), ("EXPIRED", .expired)]

def toJson (s : NegotiationStatus) : Json := .text s.name

def decode : Json.Reading → Json.Decoded NegotiationStatus := Json.decodeName names

end NegotiationStatus

structure Negotiation where
  id : NegotiationId
  first : Party
  second : Party
  status : NegotiationStatus
  offers : List Offer
  acceptance : Option Acceptance
  rejection : Option Rejection
  /-- The name of the party whose turn it is; there is none before the opening offer. -/
  active : Option String
  /-- Set once the negotiation is taken off the register; it can never be updated again. -/
  retired : Bool
  deriving DecidableEq

structure UpdateContext where
  templates : Templates
  settings : Settings
  now : Instant

/-- A signed message of an owned party, not yet delivered, and the state it was prepared in. -/
structure Prepared where
  id : NegotiationId
  offersLogged : Nat
  status : NegotiationStatus
  receiver : Party
  message : Message
  deriving DecidableEq

/-- A prepared message that the counter-party is known to have received. -/
structure Delivered where
  prepared : Prepared
  deriving DecidableEq

def Prepared.deliver (p : Prepared) (send : Message → Party → Except RelayError Unit) :
    Except Error Delivered :=
  match send p.message p.receiver with
  | .ok () => .ok ⟨p⟩
  | .error cause => .error (.relay cause)

namespace Negotiation

def start (id : NegotiationId) (first second : Party) : Negotiation :=
  ⟨id, first, second, .initial, [], none, none, none, false⟩

def parties (n : Negotiation) : List Party := [n.first, n.second]

def involves (n : Negotiation) (name : String) : Bool :=
  n.parties.any (·.name == name)

def lastOffer? (n : Negotiation) : Option Offer := n.offers.getLast?

def isPristine (n : Negotiation) : Bool :=
  !n.retired && n.status == .initial && n.offers.isEmpty

def partyByFingerprint (n : Negotiation) (h : Digest) : Except Error Party :=
  match n.parties.find? (·.hasFingerprint h) with
  | some p => .ok p
  | none =>
    .error (.badRequest .unknownParty
      s!"fingerprint {h.text} is not a party of negotiation {n.id}")

def counterpartOf (n : Negotiation) (p : Party) : Except Error Party :=
  if n.first.name = p.name then .ok n.second
  else if n.second.name = p.name then .ok n.first
  else .error (.badRequest .unknownParty s!"'{p.name}' is not a party of negotiation {n.id}")

def noOffer (n : Negotiation) : Error :=
  .badRequest .unknownNegotiation s!"negotiation {n.id} has no offer to respond to"

def hasLapsed (n : Negotiation) (now : Instant) : Bool :=
  !n.retired && n.status == .offering && n.lastOffer?.any (·.isExpired now)

/-- Refuses updates that the state does not allow. -/
def checkTurn (n : Negotiation) (sender : Party) (kind : MessageKind) (now : Instant) :
    Except Error Unit :=
  if n.retired then
    .error (.badRequest .unknownNegotiation s!"negotiation {n.id} was discarded")
  else
    match n.status with
    | .initial => if kind = .offer then .ok () else .error n.noOffer
    | .offering =>
      if n.hasLapsed now then
        .error (.badRequest .negotiationExpired s!"last offer of negotiation {n.id} has expired")
      else if n.active ≠ some sender.name then
        .error (.badRequest .awaitTurn s!"'{sender.name}' must wait for the other party to act")
      else .ok ()
    | .accepted =>
      .error (.badRequest .negotiationAccepted s!"negotiation {n.id} is already accepted")
    | .rejected =>
      .error (.badRequest .negotiationRejected s!"negotiation {n.id} is already rejected")
    | .expired => .error (.badRequest .negotiationExpired s!"negotiation {n.id} has expired")

/-- The negotiation after somebody looked at whether it can be updated: if its last offer has run
out, that is noted. -/
def notice (n : Negotiation) (now : Instant) : Negotiation :=
  if n.hasLapsed now then { n with status := .expired } else n

def apply (n : Negotiation) (m : Message) (receiver : Party) : Negotiation :=
  match m with
  | .offer m =>
    { n with offers := n.offers ++ [m], status := .offering, active := some receiver.name }
  | .acceptance m =>
    { n with acceptance := some m, status := .accepted, active := some receiver.name }
  | .rejection m =>
    { n with rejection := some m, status := .rejected, active := some receiver.name }

def currentOffer (n : Negotiation) : Except Error Offer :=
  match n.lastOffer? with
  | some m => .ok m
  | none => .error n.noOffer

/-- Prepares a message for the party that acts, which must be one of the two and owned. The draft is
only made if the state allows the message. -/
def prepare (n : Negotiation) (ctx : UpdateContext) (actor : Party) (kind : MessageKind)
    (draft : Party → SignatureScheme → Except Error Message) :
    Except Error Prepared × Negotiation :=
  let outbound : Except Error (Party × OwnedKey) := do
    let receiver ← n.counterpartOf actor
    let key ← actor.ownedKey
    return (receiver, key)
  match outbound with
  | .error e => (.error e, n)
  | .ok (receiver, key) =>
    let prepared : Except Error Prepared := do
      n.checkTurn actor kind ctx.now
      let m ← draft receiver key.scheme
      return ⟨n.id, n.offers.length, n.status, receiver, m.sign key.scheme key.seed⟩
    (prepared, n.notice ctx.now)

def prepareOffer (n : Negotiation) (ctx : UpdateContext) (offeror : Party)
    (validAfter validUntil : Instant) (contracts : List Contract) :
    Except Error Prepared × Negotiation :=
  n.prepare ctx offeror .offer fun receiver scheme => do
    contracts.forM fun c => (ctx.templates.validate c).map fun _ => ()
    let m : Offer := ⟨n.id, offeror.preferredFingerprint, receiver.preferredFingerprint,
      validAfter.canonical, validUntil.canonical, contracts, .unsigned ctx.now scheme⟩
    m.validate ctx.now
    return .offer m

def offerHash (n : Negotiation) (s : Settings) : Except Error Digest := do
  let m ← n.currentOffer
  return Digest.of s.preferred (Message.offer m).canonicalBytes

def prepareAcceptance (n : Negotiation) (ctx : UpdateContext) (acceptor : Party) :
    Except Error Prepared × Negotiation :=
  n.prepare ctx acceptor .acceptance fun receiver scheme => do
    let h ← n.offerHash ctx.settings
    return .acceptance ⟨n.id, acceptor.preferredFingerprint, receiver.preferredFingerprint, h,
      .unsigned ctx.now scheme⟩

def prepareRejection (n : Negotiation) (ctx : UpdateContext) (rejector : Party) :
    Except Error Prepared × Negotiation :=
  n.prepare ctx rejector .rejection fun receiver scheme => do
    let h ← n.offerHash ctx.settings
    return .rejection ⟨n.id, rejector.preferredFingerprint, receiver.preferredFingerprint, h,
      .unsigned ctx.now scheme⟩

def fits (n : Negotiation) (p : Prepared) : Bool :=
  !n.retired && p.id == n.id && p.offersLogged == n.offers.length && p.status == n.status

def commit (n : Negotiation) (d : Delivered) : Except Error Message × Negotiation :=
  let p := d.prepared
  if n.fits p then (.ok p.message, n.apply p.message p.receiver)
  else
    (.error (.stalePreparation
      s!"{p.message.kind.name} for negotiation {p.id} was prepared against another state"), n)

def inboundRoute (n : Negotiation) (m : Message) : Except Error (Party × Party) := do
  if m.id ≠ n.id then
    throw (.badRequest .unknownNegotiation
      s!"message for negotiation {m.id} sent to negotiation {n.id}")
  let sender ← n.partyByFingerprint m.sender
  let receiver ← n.partyByFingerprint m.receiver
  if sender.isOwned || !receiver.isOwned then
    throw (.badRequest .unknownParty
      "inbound messages must travel from a counter-party to an owned party")
  return (sender, receiver)

def checkOfferHash (n : Negotiation) (s : Settings) (h : Digest) : Except Error Unit := do
  if !s.accepts h.algorithm then
    throw (.badRequest .unsupportedHashAlgorithm s!"offer hash uses {h.algorithm.name}")
  let last ← n.currentOffer
  if !h.verifies (Message.offer last).canonicalBytes then
    throw (.badRequest .badHash
      s!"offer hash {h.text} does not match the last offer of negotiation {n.id}")

def checkContent (n : Negotiation) (ctx : UpdateContext) : Message → Except Error Unit
  | .offer m => do
    m.validate ctx.now
    m.contracts.forM fun c => (ctx.templates.validate c).map fun _ => ()
  | .acceptance m => n.checkOfferHash ctx.settings m.offerHash
  | .rejection m => n.checkOfferHash ctx.settings m.offerHash

def checkTimestamp (ctx : UpdateContext) (t : Instant) : Except Error Unit :=
  let skew := t.apart ctx.now
  if ctx.settings.timestampTolerance.nanoseconds < skew.nanoseconds then
    .error (.badRequest .badTimestamp
      s!"signature timestamp {t.text} is {skew.seconds}s away from now")
  else .ok ()

def checkInbound (n : Negotiation) (ctx : UpdateContext) (sender : Party) (m : Message) :
    Except Error Unit := do
  n.checkTurn sender m.kind ctx.now
  n.checkContent ctx m
  checkTimestamp ctx m.signature.timestamp
  sender.verify m.signingBytes m.signature ctx.settings

def receive (n : Negotiation) (ctx : UpdateContext) (m : Message) :
    Except Error Unit × Negotiation :=
  match n.inboundRoute m with
  | .error e => (.error e, n)
  | .ok (sender, receiver) =>
    match n.checkInbound ctx sender m with
    | .error e => (.error e, n.notice ctx.now)
    | .ok () => (.ok (), n.apply m receiver)

def showContract (templates : Templates) (c : Contract) : Except Error RequestedContract :=
  match templates.byHash c.templateHash with
  | .ok t => .ok ⟨t.name, c.arguments⟩
  | .error _ => .error (.templateVanished c.templateHash.text)

def lastRequest (n : Negotiation) (templates : Templates) : Except Error (Option OfferRequest) :=
  match n.lastOffer? with
  | none => .ok none
  | some m => do
    let offeror ← n.partyByFingerprint m.offeror
    let receiver ← n.partyByFingerprint m.receiver
    let contracts ← m.contracts.mapM (showContract templates)
    return some ⟨some n.id, offeror.name, receiver.name, m.validAfter, m.validUntil, contracts⟩

end Negotiation

end Parley
