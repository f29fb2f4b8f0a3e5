import Parley.Digest.Algorithm
import Parley.Text.Hex

namespace Parley

structure Digest where
  algorithm : HashAlgorithm
  sum : List UInt8
  length_sum : sum.length = algorithm.size
  deriving DecidableEq

namespace Digest

def of (a : HashAlgorithm) (message : List UInt8) : Digest :=
  ⟨a, a.digest message, HashAlgorithm.length_digest a message⟩

def ofAll (algorithms : List HashAlgorithm) (message : List UInt8) : List Digest :=
  algorithms.map fun a => of a message

def verifies (h : Digest) (message : List UInt8) : Bool :=
  h.algorithm.digest message == h.sum

def hex (h : Digest) : String :=
  String.ofList (Text.Hex.encode h.sum)

/-- The text form: the name of the algorithm, a colon and the digest in hexadecimal. -/
def text (h : Digest) : String :=
  h.algorithm.name ++ ":" ++ h.hex

def outline (h : Digest) : String :=
  s!"Hash({h.algorithm.name}:" ++ String.ofList ((Text.Hex.encode h.sum).take 16) ++ "...)"

instance : Repr Digest where
  reprPrec h _ := h.outline

def lexLe : List UInt8 → List UInt8 → Bool
  | [], _ => true
  | _ :: _, [] => false
  | a :: as, b :: bs => a < b || (a == b && lexLe as bs)

def le (h k : Digest) : Bool :=
  h.algorithm.rank < k.algorithm.rank ||
    (h.algorithm.rank == k.algorithm.rank && lexLe h.sum k.sum)

def dropRepeats : List Digest → List Digest
  | h :: k :: rest => if h = k then dropRepeats (k :: rest) else h :: dropRepeats (k :: rest)
  | hs => hs

def sort (hs : List Digest) : List Digest :=
  dropRepeats (hs.mergeSort le)

@[simp] theorem algorithm_of (a : HashAlgorithm) (message : List UInt8) :
    (of a message).algorithm = a := rfl

theorem verifies_iff (h : Digest) (message : List UInt8) :
    h.verifies message = true ↔ of h.algorithm message = h := by
  cases h with
  | mk a sum len => simp [verifies, of]

end Digest

end Parley
