import Parley.Ed25519.Curve
import Parley.Digest.Sha2

namespace Parley.Ed25519

def expand (seed : List UInt8) : Nat × List UInt8 :=
  let h := Sha2.sha512 seed
  let n := ofLittleEndian (h.take 32)
  (n % Nat.pow 2 254 / 8 * 8 + Nat.pow 2 254, h.drop 32)

def publicKey (seed : List UInt8) : List UInt8 :=
  (base.mul (expand seed).1).encode

def challenge (point key message : List UInt8) : Nat :=
  ofLittleEndian (Sha2.sha512 (point ++ key ++ message)) % order

def sign (seed message : List UInt8) : List UInt8 :=
  let (scalar, secret) := expand seed
  let r := ofLittleEndian (Sha2.sha512 (secret ++ message)) % order
  let point := (base.mul r).encode
  let k := challenge point (publicKey seed) message
  point ++ toLittleEndian 32 ((r + k * scalar) % order)

def verify (key message sum : List UInt8) : Bool :=
  match Point.decode? key with
  | none => false
  | some a =>
    let point := sum.take 32
    let s := ofLittleEndian (sum.drop 32)
    sum.length == 64 && s < order &&
      ((base.mul s).add (a.neg.mul (challenge point key message))).encode == point

theorem length_sign (seed message : List UInt8) : (sign seed message).length = 64 := by
  simp [sign, Point.encode]

end Parley.Ed25519
