import Parley.Message.Request
import Parley.Negotiation.Basic

namespace Parley

/-- What a relay answers while an operation runs. -/
structure Relay where
  /-- Delivers a message; success means that the counter-party has it. -/
  send : Message → Party → Except RelayError Unit
  fetch : List Digest → Party → Except RelayError (List Message)

structure Envelope where
  receiver : String
  message : Message
  deriving DecidableEq

structure Event where
  id : NegotiationId
  offer : Option OfferRequest
  status : NegotiationStatus
  deriving DecidableEq

/-- A relay that keeps what was sent and told, and serves definitions that were published. -/
structure MemoryRelay where
  outbox : List Envelope
  events : List Event
  published : List Message
  offline : Bool

namespace MemoryRelay

def empty : MemoryRelay := ⟨[], [], [], false⟩

def publish (r : MemoryRelay) (m : Message) : MemoryRelay :=
  { r with published := r.published ++ [m] }

def drainOutbox (r : MemoryRelay) : List Envelope × MemoryRelay :=
  (r.outbox, { r with outbox := [] })

def checkOnline (r : MemoryRelay) (whom : String) : Except RelayError Unit :=
  if r.offline then .error (.unreachable whom) else .ok ()

def find (r : MemoryRelay) (hashes : List Digest) : List Message :=
  hashes.filterMap fun h => r.published.find? fun m => h.verifies m.canonicalBytes

def answers (r : MemoryRelay) : Relay where
  send _ receiver := r.checkOnline receiver.name
  fetch hashes whom := (r.checkOnline whom.name).map fun _ => r.find hashes

def record (r : MemoryRelay) (sent : List Envelope) (events : List Event) : MemoryRelay :=
  { r with outbox := r.outbox ++ sent, events := r.events ++ events }

end MemoryRelay

end Parley
