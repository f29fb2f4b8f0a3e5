import Parley.Digest.Text
import Parley.Json.Basic
import Parley.Json.Decode
import Parley.Text.Base64

namespace Parley

open Json

def bytesToJson (bytes : List UInt8) : Json :=
  .text (String.ofList (Text.Base64.encode bytes))

def decodeBytes (v : Reading) : Decoded (List UInt8) := do
  let s ← decodeText v
  match Text.Base64.decode s.toList with
  | some bytes => .ok bytes
  | none => .error .malformed

def HashAlgorithm.toJson (a : HashAlgorithm) : Json :=
  .text a.name

def HashAlgorithm.decode (v : Reading) : Decoded HashAlgorithm := do
  let s ← decodeText v
  (HashAlgorithm.ofName s).mapError .refused

namespace Digest

def toJson (h : Digest) : Json :=
  .object [("algorithm", h.algorithm.toJson), ("sum", bytesToJson h.sum)]

structure Slots where
  algorithm : Option HashAlgorithm
  sum : Option (List UInt8)

def fields : List (RecordField Slots) :=
  [.slot "algorithm" (·.algorithm) (fun a s => { s with algorithm := some a }) HashAlgorithm.decode,
    .slot "sum" (·.sum) (fun b s => { s with sum := some b }) decodeBytes]

def decode (v : Reading) : Decoded Digest := do
  let (a, sum) ← record fields ⟨none, none⟩ (fun s => do
    let a ← required "algorithm" s.algorithm
    let sum ← required "sum" s.sum
    .ok (a, sum)) v
  (ofSum a sum).mapError .refused

end Digest

end Parley
