import Parley.Digest.Wire
import Parley.Ed25519.Basic
import Parley.Time.Text

namespace Parley

open Json

inductive KeyAlgorithm where
  | ed25519
  deriving DecidableEq, Repr

namespace KeyAlgorithm

def name : KeyAlgorithm → String
  | .ed25519 => "ED25519"

def names : List (String × KeyAlgorithm) := [("ED25519", .ed25519)]

def toJson (a : KeyAlgorithm) : Json := .text a.name

def decode : Reading → Decoded KeyAlgorithm := decodeName names

end KeyAlgorithm

inductive SignatureScheme where
  | ed25519
  deriving DecidableEq, Repr

namespace SignatureScheme

def all : List SignatureScheme := [.ed25519]

def name : SignatureScheme → String
  | .ed25519 => "ED25519"

def label : SignatureScheme → String
  | .ed25519 => "Ed25519"

def names : List (String × SignatureScheme) := [("ED25519", .ed25519)]

def keyAlgorithm : SignatureScheme → KeyAlgorithm
  | .ed25519 => .ed25519

def hashAlgorithm : SignatureScheme → HashAlgorithm
  | .ed25519 => .sha512

def select (key : KeyAlgorithm) (accepted : List HashAlgorithm) : Except Error SignatureScheme :=
  match all.find? fun s => s.keyAlgorithm == key && accepted.contains s.hashAlgorithm with
  | some s => .ok s
  | none =>
    let labels := ", ".intercalate (accepted.map HashAlgorithm.label)
    .error (.noCompatibleScheme (key.name ++ " key and accepted algorithms [" ++ labels ++ "]"))

def sign : SignatureScheme → (seed message : List UInt8) → List UInt8
  | .ed25519 => Ed25519.sign

def toJson (s : SignatureScheme) : Json := .text s.name

def decode : Reading → Decoded SignatureScheme := decodeName names

end SignatureScheme

structure PublicKey where
  algorithm : KeyAlgorithm
  bytes : List UInt8
  deriving DecidableEq

namespace PublicKey

def check (k : PublicKey) : Except Error Unit :=
  match k.algorithm with
  | .ed25519 =>
    if k.bytes.length ≠ 32 then
      .error (.certificate s!"invalid key length: expected 32, got {k.bytes.length}")
    else if (Ed25519.Point.decode? k.bytes).isNone then .error (.certificate "invalid key")
    else .ok ()

def ofBytes (a : KeyAlgorithm) (bytes : List UInt8) : Except Error PublicKey := do
  let k : PublicKey := ⟨a, bytes⟩
  k.check
  return k

def ofSeed (seed : List UInt8) : PublicKey :=
  ⟨.ed25519, Ed25519.publicKey seed⟩

def outline (k : PublicKey) : String :=
  s!"PublicKey({k.algorithm.name}, " ++ String.ofList ((Text.Hex.encode k.bytes).take 16) ++ "...)"

def toJson (k : PublicKey) : Json :=
  .object [("algorithm", k.algorithm.toJson), ("key", bytesToJson k.bytes)]

structure Slots where
  algorithm : Option KeyAlgorithm
  key : Option (List UInt8)

def fields : List (RecordField Slots) :=
  [.slot "algorithm" (·.algorithm) (fun a s => { s with algorithm := some a }) KeyAlgorithm.decode,
    .slot "key" (·.key) (fun b s => { s with key := some b }) decodeBytes]

def decode : Reading → Decoded PublicKey :=
  record fields ⟨none, none⟩ fun s => do
    let algorithm ← required "algorithm" s.algorithm
    let bytes ← required "key" s.key
    .ok ⟨algorithm, bytes⟩

end PublicKey

def SignatureScheme.verify (s : SignatureScheme) (key : PublicKey) (message sum : List UInt8) :
    Bool :=
  key.algorithm == s.keyAlgorithm &&
    match s with
    | .ed25519 => key.bytes.length == 32 && Ed25519.verify key.bytes message sum

structure Signature where
  timestamp : Instant
  scheme : SignatureScheme
  sum : Option (List UInt8)
  deriving DecidableEq

namespace Signature

def unsigned (t : Instant) (scheme : SignatureScheme) : Signature :=
  ⟨t.canonical, scheme, none⟩

def toJson (s : Signature) : Json :=
  .object ([("timestamp", s.timestamp.toJson), ("scheme", s.scheme.toJson)] ++
    (s.sum.map fun sum => ("sum", bytesToJson sum)).toList)

structure Slots where
  timestamp : Option Instant
  scheme : Option SignatureScheme
  sum : Option (Option (List UInt8))

def fields : List (RecordField Slots) :=
  [.slot "timestamp" (·.timestamp) (fun t s => { s with timestamp := some t }) Instant.decode,
    .slot "scheme" (·.scheme) (fun a s => { s with scheme := some a }) SignatureScheme.decode,
    .slot "sum" (·.sum) (fun b s => { s with sum := some b }) (optional decodeBytes)]

def decode : Reading → Decoded Signature :=
  record fields ⟨none, none, none⟩ fun s => do
    let timestamp ← required "timestamp" s.timestamp
    let scheme ← required "scheme" s.scheme
    .ok ⟨timestamp, scheme, s.sum.join⟩

end Signature

end Parley
