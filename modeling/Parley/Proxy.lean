import Parley.Bank
import Parley.Negotiation.Register
import Parley.Relay

/-!
# The proxy

A proxy negotiates on behalf of the parties it owns. Their owners ask it in names for offers,
acceptances and rejections, which it signs, sends and then commits; from counter-parties it takes
signed messages, which it checks and commits, and then fetches the definitions they refer to.

An operation is given what the relay answers and what the clock shows, and says what it sent, told
and asked for.
-/

namespace Parley

structure Proxy where
  parties : Parties
  templates : Templates
  settings : Settings
  register : Register
  bank : Bank

structure Fetch where
  whom : String
  hashes : List Digest
  deriving DecidableEq

/-- The result of an operation, the proxy after it, and what the operation did with the relay. -/
structure Outcome (α : Type) where
  result : Except Error α
  proxy : Proxy
  sent : List Envelope
  events : List Event
  fetches : List Fetch

namespace Outcome

variable {α β : Type}

def quiet (p : Proxy) (result : Except Error α) : Outcome α := ⟨result, p, [], [], []⟩

def map (f : α → β) (o : Outcome α) : Outcome β :=
  ⟨o.result.map f, o.proxy, o.sent, o.events, o.fetches⟩

def ifFailed (o : Outcome α) (change : Proxy → Proxy) : Outcome α :=
  match o.result with
  | .error _ => { o with proxy := change o.proxy }
  | .ok _ => o

def andThen (o : Outcome α) (next : Proxy → α → Outcome β) : Outcome β :=
  match o.result with
  | .error e => ⟨.error e, o.proxy, o.sent, o.events, o.fetches⟩
  | .ok a =>
    let o' := next o.proxy a
    ⟨o'.result, o'.proxy, o.sent ++ o'.sent, o.events ++ o'.events, o.fetches ++ o'.fetches⟩

end Outcome

namespace Proxy

def start (parties : Parties) (templates : Templates) (settings : Settings)
    (ids : Nat → NegotiationId) : Proxy :=
  ⟨parties, templates, settings, .empty settings.idAttempts ids, .empty settings.accepted⟩

def context (p : Proxy) (now : Instant) : UpdateContext :=
  ⟨p.templates, p.settings, now⟩

def put (p : Proxy) (h : Handle) (n : Negotiation) : Proxy :=
  { p with register := p.register.put h n }

def event (p : Proxy) (n : Negotiation) : Except Error Event := do
  let offer ← n.lastRequest p.templates
  return ⟨n.id, offer, n.status⟩

def discard (p : Proxy) (h : Handle) : Proxy :=
  { p with register := (p.register.removeIfPristine h false).2 }

/-- After an update was refused: tells the owner if the attempt changed the status, and discards a
negotiation that nothing came of. -/
def refuse {α : Type} (p : Proxy) (h : Handle) (before after : Negotiation) (e : Error) :
    Outcome α :=
  let events :=
    if after.status = before.status then []
    else
      match p.event after with
      | .ok event => [event]
      | .error _ => []
  ⟨.error e, (p.put h after).discard h, [], events, []⟩

/-- After an update was committed: stores the message and tells the owner. -/
def settle (p : Proxy) (h : Handle) (n : Negotiation) (m : Message) : Outcome Unit :=
  let p := p.put h n
  match p.bank.add m with
  | .error e => .quiet p (.error e)
  | .ok (_, bank) =>
    let p := { p with bank }
    match p.event n with
    | .error e => .quiet p (.error e)
    | .ok event => ⟨.ok (), p, [], [event], []⟩

/-- The digests under accepted algorithms that a message refers to, that name nothing in the bank
and were not asked for before, each once; and all that were asked for then. -/
def wanted (p : Proxy) (m : Message) (requested : List Digest) : List Digest × List Digest :=
  let candidates := m.references.filter fun h => p.settings.accepts h.algorithm
  (p.bank.unknown candidates).foldl (fun (new, requested) h =>
    if requested.contains h then (new, requested) else (new ++ [h], h :: requested)) ([], requested)

/-- Takes the definitions that answered a batch: those that no digest of the batch names are
dropped, the others stored, and what they refer to is wanted next. -/
def takeFetched (p : Proxy) (batch requested : List Digest) :
    List Message → Except Error (List Digest × List Digest) × Proxy
  | [] => (.ok ([], requested), p)
  | m :: rest =>
    if batch.any fun h => h.verifies m.canonicalBytes then
      match p.bank.addFetched m with
      | .error e => (.error e, p)
      | .ok (_, bank) =>
        let p := { p with bank }
        let (new, requested) := p.wanted m requested
        match takeFetched p batch requested rest with
        | (.ok (more, requested), p) => (.ok (new ++ more, requested), p)
        | (.error e, p) => (.error e, p)
    else takeFetched p batch requested rest

/-- More than there are digests. Each is asked for at most once in a resolution, so no resolution
has more rounds. -/
def maxRounds : Nat := 4 * Nat.pow 256 64

/-- Fetches the wanted definitions batch by batch until nothing is wanted any more. A fetch that
fails ends the resolution and keeps what was stored. -/
def resolve (relay : Relay) (whom : Party) : Nat → Proxy → List Digest → List Digest → Outcome Unit
  | 0, p, _, _ => .quiet p (.ok ())
  | rounds + 1, p, batch, requested =>
    if batch.isEmpty then .quiet p (.ok ())
    else
      let fetch : Fetch := ⟨whom.name, batch⟩
      match relay.fetch batch whom with
      | .error _ => ⟨.ok (), p, [], [], [fetch]⟩
      | .ok fetched =>
        match p.takeFetched batch requested fetched with
        | (.error e, p) => ⟨.error e, p, [], [], [fetch]⟩
        | (.ok (next, requested), p) =>
          let o := resolve relay whom rounds p next requested
          { o with fetches := fetch :: o.fetches }

def resolveReferences (p : Proxy) (relay : Relay) (m : Message) (whom : Party) : Outcome Unit :=
  let (batch, requested) := p.wanted m []
  resolve relay whom maxRounds p batch requested

def lookUp (p : Proxy) (m : Message) (receiver sender : Party) :
    Except Error ((Handle × Negotiation) × Proxy) :=
  match m.kind with
  | .offer =>
    let (entry, register) := p.register.getOrCreate receiver sender m.id
    .ok (entry, { p with register })
  | _ => (p.register.getBy receiver.name sender.name m.id).map fun entry => (entry, p)

/-- Takes a message from a counter-party to an owned party. -/
def receive (p : Proxy) (relay : Relay) (now : Instant) (m : Message) : Outcome Unit :=
  let found : Except Error (Party × (Handle × Negotiation) × Proxy) := do
    let sender ← p.parties.byFingerprint .counter m.sender
    let receiver ← p.parties.byFingerprint .owned m.receiver
    let (entry, p) ← p.lookUp m receiver sender
    return (sender, entry, p)
  match found with
  | .error e => .quiet p (.error e)
  | .ok (sender, (h, n), p) =>
    match n.receive (p.context now) m with
    | (.error e, n') => p.refuse h n n' e
    | (.ok (), n') =>
      (p.settle h n' m).andThen fun p () => p.resolveReferences relay m sender

/-- Sends a message of an owned party: prepares it, delivers it and commits it. If the delivery
fails nothing is committed. -/
def transmit (p : Proxy) (relay : Relay) (h : Handle) (n : Negotiation)
    (prepare : Negotiation → Except Error Prepared × Negotiation) : Outcome Unit :=
  match prepare n with
  | (.error e, n') => p.refuse h n n' e
  | (.ok prepared, n') =>
    match prepared.deliver relay.send with
    | .error e => .quiet (p.put h n') (.error e)
    | .ok delivered =>
      let sent : Envelope := ⟨prepared.receiver.name, prepared.message⟩
      match n'.commit delivered with
      | (.error e, n') => ⟨.error e, p.put h n', [sent], [], []⟩
      | (.ok m, n') =>
        let o := p.settle h n' m
        { o with sent := sent :: o.sent }

def contractOf (p : Proxy) (c : RequestedContract) : Except Error Contract := do
  let t ← p.templates.byName c.templateName
  t.validate c.arguments
  return ⟨t.preferredHash, c.arguments⟩

/-- Signs and sends an offer, and gives the id of its negotiation. An offer without an id opens a
negotiation; nothing is left of that if the offer does not get out. The clock is read twice: when
the request is checked and when the negotiation is updated. -/
def makeOffer (p : Proxy) (relay : Relay) (checked now : Instant) (r : OfferRequest) :
    Outcome NegotiationId :=
  let request : Except Error (Party × Party × List Contract) := do
    r.validate checked
    let offeror ← p.parties.byName .owned r.offerorName
    let receiver ← p.parties.byName .counter r.receiverName
    let contracts ← r.contracts.mapM p.contractOf
    return (offeror, receiver, contracts)
  match request with
  | .error e => .quiet p (.error e)
  | .ok (offeror, receiver, contracts) =>
    let prepare (n : Negotiation) :=
      n.prepareOffer (p.context now) offeror r.validAfter r.validUntil contracts
    match r.id with
    | some id =>
      match p.register.getBy offeror.name receiver.name id with
      | .error e => .quiet p (.error e)
      | .ok (h, n) => (p.transmit relay h n prepare).map fun () => id
    | none =>
      match p.register.create offeror receiver with
      | (.error e, register) => .quiet { p with register } (.error e)
      | (.ok (h, n), register) =>
        ((transmit { p with register } relay h n prepare).ifFailed (·.discard h)).map fun () => n.id

def close (p : Proxy) (relay : Relay) (senderName offerorName : String) (id : NegotiationId)
    (prepare : Party → Negotiation → Except Error Prepared × Negotiation) : Outcome Unit :=
  let request : Except Error (Party × Handle × Negotiation) := do
    let sender ← p.parties.byName .owned senderName
    let offeror ← p.parties.byName .counter offerorName
    let (h, n) ← p.register.getBy sender.name offeror.name id
    return (sender, h, n)
  match request with
  | .error e => .quiet p (.error e)
  | .ok (sender, h, n) => p.transmit relay h n (prepare sender)

def accept (p : Proxy) (relay : Relay) (now : Instant) (r : AcceptanceRequest) : Outcome Unit :=
  p.close relay r.acceptorName r.offerorName r.id fun acceptor n =>
    n.prepareAcceptance (p.context now) acceptor

def reject (p : Proxy) (relay : Relay) (now : Instant) (r : RejectionRequest) : Outcome Unit :=
  p.close relay r.rejectorName r.offerorName r.id fun rejector n =>
    n.prepareRejection (p.context now) rejector

def negotiation (p : Proxy) (a b : String) (id : NegotiationId) : Except Error Negotiation :=
  (p.register.getBy a b id).map (·.2)

def status (p : Proxy) (a b : String) (id : NegotiationId) : Except Error NegotiationStatus :=
  (p.negotiation a b id).map (·.status)

def lastRequest (p : Proxy) (a b : String) (id : NegotiationId) :
    Except Error (Option OfferRequest) := do
  let n ← p.negotiation a b id
  n.lastRequest p.templates

def renderContract (p : Proxy) (c : Contract) : Except Error String :=
  match p.templates.render c with
  | .error (.badRequest _ _) => .error (.templateVanished c.templateHash.text)
  | rendered => rendered

def renderLastOffer (p : Proxy) (a b : String) (id : NegotiationId) :
    Except Error (Option (List String)) := do
  let n ← p.negotiation a b id
  match n.lastOffer? with
  | none => return none
  | some m => return some (← m.contracts.mapM p.renderContract)

def definitions (p : Proxy) (hashes : List Digest) : List Message := p.bank.getMany hashes

def definitionsOf (p : Proxy) (id : NegotiationId) : List Message := p.bank.ofNegotiation id

end Proxy

end Parley
