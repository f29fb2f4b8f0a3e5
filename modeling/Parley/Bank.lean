import Parley.Message.Basic

/-!
# The bank of definitions

Every signed message that was committed or fetched, kept for good and found by its digests. Those
that were committed are also listed under their negotiation; those that were only fetched are not,
whatever negotiation they claim to belong to.
-/

namespace Parley

structure Bank where
  accepted : List HashAlgorithm
  definitions : List Message
  /-- The place of the definition a digest names. -/
  names : List (Digest × Nat)
  /-- The places of the definitions listed under their negotiation, in the order of listing. -/
  listings : List (NegotiationId × Nat)
  /-- The first digest of each listed definition. -/
  listed : List Digest

namespace Bank

def empty (accepted : List HashAlgorithm) : Bank :=
  ⟨accepted, [], [], [], []⟩

def find? (b : Bank) (h : Digest) : Option (Nat × Message) := do
  let place ← b.names.lookup h
  let m ← b.definitions[place]?
  some (place, m)

def get? (b : Bank) (h : Digest) : Option Message :=
  (b.find? h).map (·.2)

def contains (b : Bank) (h : Digest) : Bool := (b.get? h).isSome

/-- Looks a definition up under its digests: where it is, if it is known, and the digests that do
not name it yet; or a digest that names another definition. -/
def probe (b : Bank) (m : Message) : List Digest → Except Digest (Option Nat × List Digest)
  | [] => .ok (none, [])
  | h :: rest =>
    match b.find? h with
    | none => (probe b m rest).map fun (known, missing) => (known, h :: missing)
    | some (place, other) =>
      if other = m then
        (probe b m rest).map fun (known, missing) => (known.or (some place), missing)
      else .error h

/-- Stores a definition under its digests, and lists it under its negotiation if so wanted and not
done before. Says whether that changed anything. A digest that already names another definition is
fatal and leaves the bank as it was. -/
def store (digest : HashAlgorithm → List UInt8 → Digest) (b : Bank) (m : Message) (list : Bool) :
    Except Error (Bool × Bank) :=
  let hashes := b.accepted.map fun a => digest a m.canonicalBytes
  match b.probe m hashes with
  | .error h => .error (.hashCollision h)
  | .ok (known, missing) =>
    let place := known.getD b.definitions.length
    let stored : Bank := { b with
      definitions := if known.isNone then b.definitions ++ [m] else b.definitions
      names := b.names ++ missing.map fun h => (h, place) }
    match hashes with
    | key :: _ =>
      if list && !b.listed.contains key then
        .ok (true, { stored with
          listings := stored.listings ++ [(m.id, place)]
          listed := key :: stored.listed })
      else .ok (known.isNone, stored)
    | [] => .ok (known.isNone, stored)

def add (b : Bank) (m : Message) : Except Error (Bool × Bank) :=
  b.store Digest.of m true

def addFetched (b : Bank) (m : Message) : Except Error (Bool × Bank) :=
  b.store Digest.of m false

def getMany (b : Bank) (hashes : List Digest) : List Message :=
  let places := (hashes.filterMap b.find?).map (·.1)
  places.eraseDups.filterMap fun place => b.definitions[place]?

def unknown (b : Bank) (hashes : List Digest) : List Digest :=
  hashes.filter fun h => !b.contains h

def ofNegotiation (b : Bank) (id : NegotiationId) : List Message :=
  (b.listings.filter (·.1 == id)).filterMap fun (_, place) => b.definitions[place]?

def size (b : Bank) : Nat := b.definitions.length

end Bank

end Parley
