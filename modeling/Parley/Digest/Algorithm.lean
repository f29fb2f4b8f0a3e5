import Parley.Digest.Sha2
import Parley.Digest.Blake3

namespace Parley

inductive HashAlgorithm where
  | sha256
  | sha384
  | sha512
  | blake3
  deriving DecidableEq, Repr

namespace HashAlgorithm

def all : List HashAlgorithm :=
  [.sha256, .sha384, .sha512, .blake3]

def name : HashAlgorithm → String
  | .sha256 => "SHA-256"
  | .sha384 => "SHA-384"
  | .sha512 => "SHA-512"
  | .blake3 => "BLAKE3"

def label : HashAlgorithm → String
  | .sha256 => "Sha256"
  | .sha384 => "Sha384"
  | .sha512 => "Sha512"
  | .blake3 => "Blake3"

def size : HashAlgorithm → Nat
  | .sha256 => 32
  | .sha384 => 48
  | .sha512 => 64
  | .blake3 => 32

/-- Whether finding two messages with one digest is out of reach. -/
def isCollisionSafe : HashAlgorithm → Bool
  | .sha256 => true
  | .sha384 => true
  | .sha512 => true
  | .blake3 => true

def rank : HashAlgorithm → Nat
  | .sha256 => 0
  | .sha384 => 1
  | .sha512 => 2
  | .blake3 => 3

def digest : HashAlgorithm → List UInt8 → List UInt8
  | .sha256 => Sha2.sha256
  | .sha384 => Sha2.sha384
  | .sha512 => Sha2.sha512
  | .blake3 => Blake3.blake3

def sameLetters (s t : String) : Bool :=
  s.toList.map Char.toLower == t.toList.map Char.toLower

def ofName? (s : String) : Option HashAlgorithm :=
  all.find? fun a => sameLetters a.name s

def preferred? (accepted : List HashAlgorithm) : Option HashAlgorithm :=
  (accepted.find? isCollisionSafe).or accepted.head?

@[simp] theorem length_digest (a : HashAlgorithm) (message : List UInt8) :
    (a.digest message).length = a.size := by
  cases a <;> simp [digest, size]

theorem mem_all (a : HashAlgorithm) : a ∈ all := by
  cases a <;> decide

theorem mem_of_preferred? {accepted : List HashAlgorithm} {a : HashAlgorithm}
    (h : preferred? accepted = some a) : a ∈ accepted := by
  rcases Option.or_eq_some_iff.1 h with hf | ⟨_, hd⟩
  · exact List.mem_of_find?_eq_some hf
  · exact List.mem_of_mem_head? hd

theorem preferred?_eq_none_iff {accepted : List HashAlgorithm} :
    preferred? accepted = none ↔ accepted = [] := by
  cases accepted <;> simp [preferred?]

end HashAlgorithm

end Parley
