import Parley.Error

namespace Parley

class Listed (α : Type) where
  name : α → String
  hashes : α → List Digest

inductive Clash (α : Type) where
  | name (entry : α)
  | hash (earlier later : α) (hash : Digest)

structure Directory (α : Type) where
  entries : List α

namespace Directory

variable {α : Type} [Listed α]

def empty : Directory α := ⟨[]⟩

def byName? (d : Directory α) (name : String) : Option α :=
  d.entries.find? fun e => Listed.name e == name

def byHash? (d : Directory α) (h : Digest) : Option α :=
  d.entries.find? fun e => (Listed.hashes e).contains h

def size (d : Directory α) : Nat := d.entries.length

def hashClash? (d : Directory α) (e : α) (seen : List Digest) : List Digest → Option (Clash α)
  | [] => none
  | h :: rest =>
    match d.byHash? h with
    | some earlier => some (.hash earlier e h)
    | none => if seen.contains h then some (.hash e e h) else hashClash? d e (h :: seen) rest

def add (d : Directory α) (e : α) : Except (Clash α) (Directory α) :=
  if (d.byName? (Listed.name e)).isSome then .error (.name e)
  else
    match d.hashClash? e [] (Listed.hashes e) with
    | some clash => .error clash
    | none => .ok ⟨d.entries ++ [e]⟩

/-- A directory of entries in the given order, or the first clash among them. -/
def ofList (entries : List α) : Except (Clash α) (Directory α) :=
  entries.foldlM add empty

end Directory

end Parley
