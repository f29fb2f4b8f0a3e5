import Parley.Error

namespace Parley

def HashAlgorithm.ofName (s : String) : Except Error HashAlgorithm :=
  match ofName? s with
  | some a => .ok a
  | none => .error (.unsupportedAlgorithm s)

namespace Digest

def ofSum (a : HashAlgorithm) (sum : List UInt8) : Except Error Digest :=
  if h : sum.length = a.size then .ok ⟨a, sum, h⟩
  else .error (.serialization s!"{a.name} digest must be {a.size} bytes, got {sum.length}")

/-- Reads the text form. What is before the first colon must name an algorithm, what is after it
must be hexadecimal, and the length must fit; the first of these to fail is reported. -/
def ofText (s : String) : Except Error Digest :=
  let cs := s.toList
  match cs.dropWhile (· != ':') with
  | [] => .error (.serialization s!"not a hash: {s}")
  | _ :: digits => do
    let a ← HashAlgorithm.ofName (String.ofList (cs.takeWhile (· != ':')))
    match Text.Hex.decode (String.ofList digits) with
    | .error fault => .error (.serialization s!"bad hash digest: {fault.message}")
    | .ok sum => ofSum a sum

def ofText? (s : String) : Option Digest :=
  (ofText s).toOption

@[simp] theorem ofSum_sum (h : Digest) : ofSum h.algorithm h.sum = .ok h := by
  simp [ofSum, h.length_sum]

end Digest

end Parley
