import Parley.Certificate
import Parley.Settings
import Parley.Text.Blank

namespace Parley

abbrev Timely (α : Type) := ExceptT Error Option α

structure OwnedKey where
  seed : List UInt8
  scheme : SignatureScheme
  deriving DecidableEq

def OwnedKey.outline (k : OwnedKey) : String :=
  "OwnedKey \x7b scheme: " ++ k.scheme.label ++ ", .. \x7d"

structure Party where
  name : String
  certificate : Certificate
  /-- The digest of the certificate under each accepted algorithm, in order of preference. -/
  fingerprints : List Digest
  preferredFingerprint : Digest
  key : Option OwnedKey
  deriving DecidableEq

namespace Party

/-- A party whose certificate is valid and has a name that is not blank. -/
def build (c : Certificate) (key : Option OwnedKey) (s : Settings) (now : Instant) :
    Timely Party := do
  ExceptT.mk (c.checkValidity now s.certificateTolerance)
  let name := Text.trim c.commonName
  if name.isEmpty then throw (.certificate "certificate has no common name")
  return {
    name, certificate := c, key
    fingerprints := s.accepted.map c.fingerprint
    preferredFingerprint := c.fingerprint s.preferred }

def counter (c : Certificate) (s : Settings) (now : Instant) : Timely Party :=
  build c none s now

def owned (c : Certificate) (seed : List UInt8) (s : Settings) (now : Instant) : Timely Party := do
  liftExcept c.publicKey.check
  if c.publicKey ≠ .ofSeed seed then
    throw (.certificate s!"private key does not match certificate of '{c.commonName}'")
  let scheme ← liftExcept (SignatureScheme.select c.publicKey.algorithm s.accepted)
  build c (some ⟨seed, scheme⟩) s now
where
  liftExcept {α : Type} (r : Except Error α) : Timely α := ExceptT.mk (some r)

def isOwned (p : Party) : Bool := p.key.isSome

def fingerprint? (p : Party) (a : HashAlgorithm) : Option Digest :=
  p.fingerprints.find? (·.algorithm == a)

def hasFingerprint (p : Party) (h : Digest) : Bool :=
  p.fingerprints.contains h

def ownedKey (p : Party) : Except Error OwnedKey :=
  match p.key with
  | some key => .ok key
  | none => .error (.notOwned p.name)

def verify (p : Party) (message : List UInt8) (g : Signature) (s : Settings) : Except Error Unit :=
  let digest := g.scheme.hashAlgorithm
  if !s.accepts digest then
    .error (.badRequest .unsupportedHashAlgorithm
      s!"signature scheme {g.scheme.name} uses {digest.name}")
  else
    match g.sum with
    | none => .error (.badRequest .badSignature s!"message from '{p.name}' is unsigned")
    | some sum =>
      if g.scheme.verify p.certificate.publicKey message sum then .ok ()
      else .error (.badRequest .badSignature s!"signature does not match certificate of '{p.name}'")

end Party

end Parley
