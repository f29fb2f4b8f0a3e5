import Parley.Negotiation.Basic

namespace Parley

structure PartyPair where
  first : String
  second : String
  ordered : first ≤ second
  deriving DecidableEq

def PartyPair.of (a b : String) : PartyPair :=
  if h : a ≤ b then ⟨a, b, h⟩ else ⟨b, a, (String.le_total a b).resolve_left h⟩

theorem PartyPair.of_comm (a b : String) : PartyPair.of a b = PartyPair.of b a := by
  unfold PartyPair.of
  by_cases h : a ≤ b <;> by_cases h' : b ≤ a
  · have := String.le_antisymm h h'
    subst this
    rfl
  · simp [h, h']
  · simp [h, h']
  · exact absurd ((String.le_total a b).resolve_left h) h'

def Negotiation.pair (n : Negotiation) : PartyPair :=
  .of n.first.name n.second.name

/-- What a negotiation is registered under. -/
abbrev RegisterKey := PartyPair × NegotiationId

/-- The place of a negotiation among all that were ever registered. -/
abbrev Handle := Nat

structure Register where
  negotiations : List Negotiation
  listed : List (RegisterKey × Handle)
  attempts : Nat
  source : Nat → NegotiationId
  drawn : Nat

namespace Register

def empty (attempts : Nat) (source : Nat → NegotiationId) : Register :=
  ⟨[], [], max 1 attempts, source, 0⟩

def find? (r : Register) (key : RegisterKey) : Option (Handle × Negotiation) := do
  let h ← r.listed.lookup key
  let n ← r.negotiations[h]?
  some (h, n)

def get? (r : Register) (h : Handle) : Option Negotiation :=
  r.negotiations[h]?

def insert (r : Register) (id : NegotiationId) (a b : Party) : (Handle × Negotiation) × Register :=
  let h := r.negotiations.length
  let n := Negotiation.start id a b
  ((h, n), { r with
    negotiations := r.negotiations ++ [n]
    listed := ((n.pair, id), h) :: r.listed })

/-- The first drawn id the pair does not use yet, among at most so many, and the number of draws. -/
def drawId (r : Register) (pair : PartyPair) : Nat → Nat → Option NegotiationId × Nat
  | 0, drawn => (none, drawn)
  | attempts + 1, drawn =>
    let id := r.source drawn
    if (r.find? (pair, id)).isSome then drawId r pair attempts (drawn + 1)
    else (some id, drawn + 1)

def create (r : Register) (a b : Party) : Except Error (Handle × Negotiation) × Register :=
  match r.drawId (.of a.name b.name) r.attempts r.drawn with
  | (some id, drawn) =>
    let (entry, r) := { r with drawn := drawn }.insert id a b
    (.ok entry, r)
  | (none, drawn) => (.error (.idGenerationExhausted r.attempts), { r with drawn := drawn })

def getOrCreate (r : Register) (a b : Party) (id : NegotiationId) :
    (Handle × Negotiation) × Register :=
  match r.find? (.of a.name b.name, id) with
  | some entry => (entry, r)
  | none => r.insert id a b

def getBy (r : Register) (a b : String) (id : NegotiationId) :
    Except Error (Handle × Negotiation) :=
  match r.find? (.of a b, id) with
  | some entry => .ok entry
  | none =>
    .error (.badRequest .unknownNegotiation s!"no negotiation {id} between '{a}' and '{b}'")

def put (r : Register) (h : Handle) (n : Negotiation) : Register :=
  { r with negotiations := r.negotiations.set h n }

/-- Takes a negotiation off the register if nothing was ever committed to it and nobody is busy with
it. Whoever still holds its handle finds it retired. -/
def removeIfPristine (r : Register) (h : Handle) (busy : Bool) : Bool × Register :=
  match r.get? h with
  | none => (false, r)
  | some n =>
    if (r.find? (n.pair, n.id)).map (·.1) = some h && !busy && n.isPristine then
      (true, { r.put h { n with retired := true } with
        listed := r.listed.filter fun entry => entry.1 ≠ (n.pair, n.id) })
    else (false, r)

def size (r : Register) : Nat := r.listed.length

def outline (r : Register) : String :=
  "ContractNegotiations \x7b len: " ++ toString r.size ++ ", attempts: " ++ toString r.attempts ++
    " \x7d"

end Register

end Parley
