import Parley.Directory
import Parley.Party.Basic

namespace Parley

instance : Listed Party := ⟨Party.name, Party.fingerprints⟩

structure Parties where
  directory : Directory Party
  accepted : List HashAlgorithm

namespace Parties

def ofList (parties : List Party) (s : Settings) : Except Error Parties :=
  match Directory.ofList parties with
  | .ok directory => .ok ⟨directory, s.accepted⟩
  | .error (.name p) => .error (.ambiguous s!"party name '{p.name}' is used twice")
  | .error (.hash p q h) =>
    .error (.ambiguous s!"parties '{p.name}' and '{q.name}' share fingerprint {h.text}")

inductive Role where
  | any
  | owned
  | counter
  deriving DecidableEq, Repr

namespace Role

def admits : Role → Party → Bool
  | .any, _ => true
  | .owned, p => p.isOwned
  | .counter, p => !p.isOwned

def noun : Role → String
  | .any => "party"
  | .owned => "owned party"
  | .counter => "counter-party"

end Role

def byName (ps : Parties) (role : Role) (name : String) : Except Error Party :=
  match (ps.directory.byName? name).filter role.admits with
  | some p => .ok p
  | none => .error (.badRequest .unknownParty s!"no {role.noun} named '{name}'")

def byFingerprint (ps : Parties) (role : Role) (h : Digest) : Except Error Party :=
  if !ps.accepted.contains h.algorithm then
    .error (.badRequest .unsupportedHashAlgorithm s!"fingerprint uses {h.algorithm.name}")
  else
    match ps.directory.byHash? h with
    | none => .error (.badRequest .unknownParty s!"no party with fingerprint {h.text}")
    | some p =>
      if role.admits p then .ok p
      else .error (.badRequest .unknownParty s!"no {role.noun} with fingerprint {h.text}")

def size (ps : Parties) : Nat := ps.directory.size

end Parties

end Parley
