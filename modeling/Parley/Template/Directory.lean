import Parley.Directory
import Parley.Message.Basic
import Parley.Template.Basic

namespace Parley

instance : Listed Template := ⟨Template.name, Template.hashes⟩

structure Templates where
  directory : Directory Template

namespace Templates

def empty : Templates := ⟨.empty⟩

def ofList (templates : List Template) : Except Error Templates :=
  match Directory.ofList templates with
  | .ok directory => .ok ⟨directory⟩
  | .error (.name t) => .error (.ambiguous s!"template name '{t.name}' is used twice")
  | .error (.hash t u h) =>
    .error (.ambiguous s!"templates '{t.name}' and '{u.name}' share hash {h.text}")

def byName (ts : Templates) (name : String) : Except Error Template :=
  match ts.directory.byName? name with
  | some t => .ok t
  | none => .error (.badRequest .unknownTemplate s!"no template named '{name}'")

def byHash (ts : Templates) (h : Digest) : Except Error Template :=
  match ts.directory.byHash? h with
  | some t => .ok t
  | none => .error (.badRequest .unknownTemplate s!"no template with hash {h.text}")

def validate (ts : Templates) (c : Contract) : Except Error Template := do
  let t ← ts.byHash c.templateHash
  t.validate c.arguments
  return t

def render (ts : Templates) (c : Contract) : Except Error String := do
  let t ← ts.byHash c.templateHash
  t.render c.arguments

def size (ts : Templates) : Nat := ts.directory.size

def sorted (ts : Templates) : List Template :=
  ts.directory.entries.mergeSort fun t u => t.name ≤ u.name

end Templates

end Parley
