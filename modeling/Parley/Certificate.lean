import Parley.Signature
import Parley.Text.Utf8

namespace Parley

open Json

structure Certificate where
  commonName : String
  notBefore : Instant
  notAfter : Instant
  publicKey : PublicKey
  deriving DecidableEq

namespace Certificate

def issue (commonName : String) (notBefore notAfter : Instant) (publicKey : PublicKey) :
    Certificate :=
  ⟨commonName, notBefore.canonical, notAfter.canonical, publicKey⟩

/-- Whether the certificate is valid at an instant, give or take a tolerance at both ends. There is
no verdict if the tolerance leads out of the calendar. -/
def checkValidity (c : Certificate) (now : Instant) (tolerance : Span) :
    Option (Except Error Unit) :=
  let refuse (what : String) : Except Error Unit :=
    .error (.certificate s!"certificate of '{c.commonName}' {what}")
  if c.notAfter < c.notBefore then some (refuse "has an empty validity window")
  else do
    let latest ← now.add? tolerance
    if latest < c.notBefore then return refuse s!"is not valid before {c.notBefore.text}"
    let earliest ← now.add? tolerance.neg
    if c.notAfter < earliest then return refuse s!"expired at {c.notAfter.text}"
    return .ok ()

def toJson (c : Certificate) : Json :=
  .object [("commonName", .text c.commonName), ("notBefore", c.notBefore.toJson),
    ("notAfter", c.notAfter.toJson), ("publicKey", c.publicKey.toJson)]

def canonicalBytes (c : Certificate) : List UInt8 :=
  Text.utf8 c.toJson.compact

def fingerprint (c : Certificate) (a : HashAlgorithm) : Digest :=
  Digest.of a c.canonicalBytes

structure Slots where
  commonName : Option String
  notBefore : Option Instant
  notAfter : Option Instant
  publicKey : Option PublicKey

def fields : List (RecordField Slots) :=
  [.slot "commonName" (·.commonName) (fun n s => { s with commonName := some n }) decodeText,
    .slot "notBefore" (·.notBefore) (fun t s => { s with notBefore := some t }) Instant.decode,
    .slot "notAfter" (·.notAfter) (fun t s => { s with notAfter := some t }) Instant.decode,
    .slot "publicKey" (·.publicKey) (fun k s => { s with publicKey := some k }) PublicKey.decode]

def decode : Reading → Decoded Certificate :=
  record fields ⟨none, none, none, none⟩ fun s => do
    let commonName ← required "commonName" s.commonName
    let notBefore ← required "notBefore" s.notBefore
    let notAfter ← required "notAfter" s.notAfter
    let publicKey ← required "publicKey" s.publicKey
    .ok ⟨commonName, notBefore, notAfter, publicKey⟩

end Certificate

end Parley
